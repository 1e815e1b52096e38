import Mathlib.Algebra.Order.Group.Abs
import Mathlib.Algebra.Order.Group.Int
import Mathlib.Algebra.Order.Group.Unbundled.Int
import Mathlib.Algebra.Ring.Int.Defs
import Mathlib.Tactic.Common

/-!
# Counters that wrap

A counter is read modulo `2 * half`.  The difference of two readings is taken
`across` the wrap, and `across_emod_sub` says that it is the true difference
of the counts if they are closer than `half`.

`travelled` adds the differences along a list of readings, and
`travelled_eq` is its telescoping sum.

A count that moves by one at a time takes every value in between
(`exists_count_eq`).
-/

namespace MinotaurRobot.Lib.Counter

/-! ## One difference -/

/-- A difference of two readings that is larger than half the range is taken
the other way round. -/
def across (half : Int) (diff : Int) : Int :=
  if diff > half then diff - 2 * half
  else if diff < -half then diff + 2 * half
  else diff

/-- Away from the upper end this is the balanced residue. -/
theorem across_eq_bmod {half : Nat} {diff : Int} (hlow : -(2 * half) < diff)
    (hhigh : diff < 2 * half) (hne : diff ≠ half) :
    across half diff = diff.bmod (2 * half) := by
  have hmod : diff % (2 * half : Nat) = if diff < 0 then diff + 2 * half else diff := by
    push_cast
    split_ifs with hneg
    · rw [← Int.add_emod_right, Int.emod_eq_of_lt (by omega) (by omega)]
    · exact Int.emod_eq_of_lt (by omega) hhigh
  rw [Int.bmod_def, hmod]
  unfold across
  push_cast
  split_ifs <;> omega

/-- The residues of two close counts have the difference of the counts. -/
theorem across_emod_sub {half : Nat} {x y : Int} (h : |y - x| < half) :
    across half (y % (2 * half) - x % (2 * half)) = y - x := by
  have hpos : (0 : Int) < 2 * half := by
    have := abs_nonneg (y - x)
    omega
  have hx := Int.emod_nonneg x hpos.ne'
  have hx' := Int.emod_lt_of_pos x hpos
  have hy := Int.emod_nonneg y hpos.ne'
  have hy' := Int.emod_lt_of_pos y hpos
  obtain ⟨hlow, hhigh⟩ := abs_lt.1 h
  have hbmod : (y % (2 * half) - x % (2 * half)).bmod (2 * half) = y - x := by
    have hcast : (2 * half : Int) = (2 * half : Nat) := by push_cast; rfl
    rw [hcast, Int.emod_sub_bmod, Int.sub_emod_bmod]
    exact Int.bmod_eq_of_le_mul_two (by push_cast; omega) (by push_cast; omega)
  rw [across_eq_bmod (by omega) (by omega), hbmod]
  intro htie
  rw [htie, Int.bmod_def] at hbmod
  push_cast at hbmod
  rw [Int.emod_eq_of_lt (by omega) (by omega)] at hbmod
  split_ifs at hbmod <;> omega

/-! ## A list of readings -/

variable {R : Type}

/-- The sum of the differences along some readings. -/
def travelled (diff : R → R → Int) : List R → Int
  | a :: b :: readings => diff a b + travelled diff (b :: readings)
  | _ => 0

theorem travelled_concat (diff : R → R → Int) (readings : List R) (a b : R) :
    travelled diff (readings ++ [a, b]) = travelled diff (readings ++ [a]) + diff a b := by
  induction readings with
  | nil => simp [travelled]
  | cons x readings ih =>
    cases readings with
    | nil => simp [travelled]
    | cons y readings =>
      simp only [List.cons_append] at ih ⊢
      rw [travelled, travelled, ih, Int.add_assoc]

/-- If every difference is the difference of the counts, then the sum is the
difference of the last and the first count. -/
theorem travelled_eq {diff : R → R → Int} {count : Nat → Int} {readings : List R}
    (h : ∀ i a b, readings[i]? = some a → readings[i + 1]? = some b →
      diff a b = count (i + 1) - count i) :
    travelled diff readings = count (readings.length - 1) - count 0 := by
  induction readings generalizing count with
  | nil => simp [travelled]
  | cons a readings ih =>
    cases readings with
    | nil => simp [travelled]
    | cons b readings =>
      have hrest := @ih (fun i => count (i + 1)) fun i a b ha hb => h (i + 1) a b ha hb
      rw [travelled, h 0 a b rfl rfl, hrest]
      simp only [List.length_cons, Nat.add_sub_cancel]
      omega

/-! ## Counts that move by one -/

variable {f : ℕ → Int}

/-- A count that moves by one at a time is not further away than the number of
moves. -/
theorem abs_count_sub_le (hstep : ∀ n, |f (n + 1) - f n| ≤ 1) {a b : ℕ} (hab : a ≤ b) :
    |f b - f a| ≤ b - a := by
  induction b, hab using Nat.le_induction with
  | base => simp
  | succ b hab ih =>
    have hmove := abs_le.1 (hstep b)
    have hfar := abs_le.1 ih
    push_cast
    rw [abs_le]
    omega

/-- It takes every value between two of its values. -/
theorem exists_count_eq (hstep : ∀ n, |f (n + 1) - f n| ≤ 1) {a b : ℕ} (hab : a ≤ b) {z : Int}
    (hbetween : f a ≤ z ∧ z ≤ f b ∨ f b ≤ z ∧ z ≤ f a) : ∃ n, a ≤ n ∧ n ≤ b ∧ f n = z := by
  induction b, hab using Nat.le_induction with
  | base => exact ⟨a, le_refl a, le_refl a, by omega⟩
  | succ b hab ih =>
    have hmove := abs_le.1 (hstep b)
    by_cases hlast : f (b + 1) = z
    · exact ⟨b + 1, by omega, le_refl _, hlast⟩
    · obtain ⟨n, han, hnb, hn⟩ := ih (by omega)
      exact ⟨n, han, by omega, hn⟩

end MinotaurRobot.Lib.Counter
