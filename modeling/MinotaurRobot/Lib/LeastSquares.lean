import Mathlib.Algebra.BigOperators.Ring.List
import Mathlib.Algebra.Order.BigOperators.Group.List
import Mathlib.Algebra.Order.Field.Basic
import Mathlib.Tactic.Linarith
import Mathlib.Tactic.LinearCombination
import Mathlib.Tactic.Positivity
import Mathlib.Tactic.Ring

/-!
# Lines through points

The line `y = m * x + c` with the least sum of squares, from sums of one pass
over the points.  The definitions need operations and no laws, so that they can
be read for rounded numbers too.  All results are for a field.
`residual_eq_fit` writes the residual of any line as the one of this line and
two squares, and the rest follows from it: the line is the best one, and there
is no other (`best_iff`).

Points have any type, with two functions for the coordinates.
-/

namespace MinotaurRobot.Lib.LeastSquares

variable {α K : Type*}

/-! ## Sums of one pass -/

section Code

variable [Zero K] [Add K] [Sub K] [Mul K] [Div K] [NatCast K]

/-- The sum of some values, in the order of the points. -/
def total (f : α → K) (points : List α) : K := points.foldl (fun sum p => sum + f p) 0

/-- The mean of some values. -/
def mean (f : α → K) (points : List α) : K := total f points / points.length

/-- The mean of the products, less the product of the means. -/
def cov (f g : α → K) (points : List α) : K :=
  mean (fun p => f p * g p) points - mean f points * mean g points

/-- The sum of the squares of the distances from a line, in the direction of
`g`. -/
def residual (f g : α → K) (m c : K) (points : List α) : K :=
  total (fun p => (g p - m * f p - c) * (g p - m * f p - c)) points

/-- The slope of the best line. -/
def slope (f g : α → K) (points : List α) : K := cov f g points / cov f f points

/-- Where it meets the axis. -/
def intercept (f g : α → K) (points : List α) : K :=
  mean g points - slope f g points * mean f points

end Code

variable [Field K]

theorem total_eq_sum (f : α → K) (points : List α) : total f points = (points.map f).sum := by
  rw [total, List.sum_eq_foldl, List.foldl_map]

theorem mean_eq_sum (f : α → K) (points : List α) :
    mean f points = (points.map f).sum / points.length := by
  rw [mean, total_eq_sum]

theorem residual_eq_sum (f g : α → K) (m c : K) (points : List α) :
    residual f g m c points = (points.map fun p => (g p - m * f p - c) ^ 2).sum := by
  simp only [residual, total_eq_sum, sq]

theorem sum_eq_mean [CharZero K] {points : List α} (h : points ≠ []) (f : α → K) :
    (points.map f).sum = points.length * mean f points := by
  have hlen : (points.length : K) ≠ 0 := by
    rw [Nat.cast_ne_zero]
    exact mt List.length_eq_zero_iff.1 h
  rw [mean_eq_sum, mul_div_cancel₀ _ hlen]

theorem mean_add [CharZero K] {points : List α} (h : points ≠ []) (f : α → K) (a : K) :
    mean (fun p => f p + a) points = mean f points + a := by
  have hlen : (points.length : K) ≠ 0 := by
    rw [Nat.cast_ne_zero]
    exact mt List.length_eq_zero_iff.1 h
  have hconst : (points.map fun _ => a).sum = points.length * a := by
    rw [List.map_const', List.sum_replicate, nsmul_eq_mul]
  rw [mean_eq_sum, mean_eq_sum, List.sum_map_add, hconst, add_div, mul_div_cancel_left₀ _ hlen]

/-- The residual in terms of the means. -/
theorem residual_eq_means [CharZero K] {points : List α} (h : points ≠ []) (f g : α → K)
    (m c : K) :
    residual f g m c points =
      points.length * (mean (fun p => g p * g p) points - 2 * m * mean (fun p => f p * g p) points -
        2 * c * mean g points + m ^ 2 * mean (fun p => f p * f p) points +
        2 * m * c * mean f points + c ^ 2) := by
  have hconst : (points.map fun _ => c ^ 2).sum = points.length * c ^ 2 := by
    rw [List.map_const', List.sum_replicate, nsmul_eq_mul]
  have hexpand : ∀ p, (g p - m * f p - c) ^ 2 =
      g p * g p + (-2 * m) * (f p * g p) + (-2 * c) * g p + m ^ 2 * (f p * f p) +
        (2 * m * c) * f p + c ^ 2 := by
    intro p
    ring
  rw [residual_eq_sum]
  simp only [hexpand, List.sum_map_add, List.sum_map_mul_left, hconst]
  simp only [sum_eq_mean h]
  ring

/-! ## The best line -/

/-- The residual of any line, and that of the best one. -/
theorem residual_eq_fit [CharZero K] {points : List α} (h : points ≠ []) {f : α → K}
    (hspread : cov f f points ≠ 0) (g : α → K) (m c : K) :
    residual f g m c points =
      residual f g (slope f g points) (intercept f g points) points +
        points.length * (cov f f points * (m - slope f g points) ^ 2 +
          ((m - slope f g points) * mean f points + (c - intercept f g points)) ^ 2) := by
  have hslope : slope f g points * cov f f points = cov f g points :=
    div_mul_cancel₀ _ hspread
  rw [residual_eq_means h, residual_eq_means h, intercept]
  unfold cov at hslope ⊢
  linear_combination (2 * (points.length : K) * (m - slope f g points)) * hslope

section Ordered

variable [LinearOrder K] [IsStrictOrderedRing K]

/-- No line is nearer to the points. -/
def Best (f g : α → K) (points : List α) (m c : K) : Prop :=
  ∀ m' c', residual f g m c points ≤ residual f g m' c' points

theorem residual_nonneg (f g : α → K) (m c : K) (points : List α) :
    0 ≤ residual f g m c points := by
  rw [residual_eq_sum]
  apply List.sum_nonneg
  intro x hx
  obtain ⟨p, -, rfl⟩ := List.mem_map.1 hx
  exact sq_nonneg _

/-- The spread of the points as a residual. -/
theorem length_mul_cov {points : List α} (h : points ≠ []) (f : α → K) :
    points.length * cov f f points = residual f f 0 (mean f points) points := by
  rw [residual_eq_means h, cov]
  ring

theorem cov_self_nonneg (f : α → K) (points : List α) : 0 ≤ cov f f points := by
  by_cases h : points = []
  · rw [h]
    simp [cov, mean_eq_sum]
  · have hlen : (0 : K) < points.length := by
      rw [Nat.cast_pos]
      exact List.length_pos_iff.2 h
    have hnonneg := residual_nonneg f f 0 (mean f points) points
    rw [← length_mul_cov h] at hnonneg
    exact nonneg_of_mul_nonneg_right hnonneg hlen

/-- The points have no spread exactly if they are all on one vertical line. -/
theorem cov_self_eq_zero_iff (f : α → K) (points : List α) :
    cov f f points = 0 ↔ ∀ p ∈ points, ∀ q ∈ points, f p = f q := by
  by_cases h : points = []
  · rw [h]
    simp [cov, mean_eq_sum]
  have hlen : (points.length : K) ≠ 0 := by
    rw [Nat.cast_ne_zero]
    exact mt List.length_eq_zero_iff.1 h
  have hzero : cov f f points = 0 ↔ residual f f 0 (mean f points) points = 0 := by
    rw [← length_mul_cov h, mul_eq_zero, or_iff_right hlen]
  rw [hzero, residual_eq_sum]
  constructor
  · intro hsum
    have hmean : ∀ p ∈ points, f p = mean f points := by
      intro p hp
      have hall := List.all_zero_of_le_zero_le_of_sum_eq_zero
        (l := points.map fun p => (f p - 0 * f p - mean f points) ^ 2)
        (fun x hx => by
          obtain ⟨p, -, rfl⟩ := List.mem_map.1 hx
          exact sq_nonneg _) hsum (List.mem_map_of_mem hp)
      have hdiff := pow_eq_zero_iff two_ne_zero |>.1 hall
      rw [zero_mul, sub_zero] at hdiff
      exact sub_eq_zero.1 hdiff
    intro p hp q hq
    rw [hmean p hp, hmean q hq]
  · intro hall
    have hmean : ∀ p ∈ points, mean f points = f p := by
      intro p hp
      have hconst : points.map f = List.replicate points.length (f p) := by
        rw [List.map_eq_replicate_iff]
        exact fun q hq => hall q hq p hp
      rw [mean_eq_sum, hconst, List.sum_replicate, nsmul_eq_mul, mul_div_cancel_left₀ _ hlen]
    rw [List.sum_eq_zero]
    intro x hx
    obtain ⟨p, hp, rfl⟩ := List.mem_map.1 hx
    rw [hmean p hp]
    ring

theorem fit_best {points : List α} {f : α → K} (hspread : cov f f points ≠ 0) (g : α → K) :
    Best f g points (slope f g points) (intercept f g points) := by
  intro m c
  have h : points ≠ [] := by
    rintro rfl
    exact hspread (by simp [cov, mean_eq_sum])
  have hcov := cov_self_nonneg f points
  rw [residual_eq_fit h hspread g m c, le_add_iff_nonneg_right]
  positivity

/-- There is one best line only. -/
theorem best_iff {points : List α} {f : α → K} (hspread : cov f f points ≠ 0) {g : α → K}
    {m c : K} :
    Best f g points m c ↔ m = slope f g points ∧ c = intercept f g points := by
  constructor
  swap
  · rintro ⟨rfl, rfl⟩
    exact fit_best hspread g
  intro hbest
  have hle := hbest (slope f g points) (intercept f g points)
  have h : points ≠ [] := by
    rintro rfl
    exact hspread (by simp [cov, mean_eq_sum])
  have hcov := lt_of_le_of_ne (cov_self_nonneg f points) (Ne.symm hspread)
  have hlen : (0 : K) < points.length := by
    rw [Nat.cast_pos]
    exact List.length_pos_iff.2 h
  rw [residual_eq_fit h hspread g m c, add_le_iff_nonpos_right] at hle
  have hsquares := nonpos_of_mul_nonpos_right hle hlen
  have hfirst : 0 ≤ cov f f points * (m - slope f g points) ^ 2 := by positivity
  have hslope : cov f f points * (m - slope f g points) ^ 2 = 0 := by
    have hsecond := sq_nonneg
      ((m - slope f g points) * mean f points + (c - intercept f g points))
    exact le_antisymm (by linarith) hfirst
  have hm : m - slope f g points = 0 := by
    rcases mul_eq_zero.1 hslope with hzero | hsquare
    · exact absurd hzero hspread
    · exact pow_eq_zero_iff two_ne_zero |>.1 hsquare
  rw [hslope, zero_add, hm, zero_mul, zero_add] at hsquares
  have hc : c - intercept f g points = 0 :=
    pow_eq_zero_iff two_ne_zero |>.1 (le_antisymm hsquares (sq_nonneg _))
  exact ⟨sub_eq_zero.1 hm, sub_eq_zero.1 hc⟩

end Ordered

/-! ## Other points -/

theorem mean_map {β : Type*} (t : β → α) (f : α → K) (points : List β) :
    mean f (points.map t) = mean (fun p => f (t p)) points := by
  unfold mean total
  rw [List.foldl_map, List.length_map]

theorem cov_map {β : Type*} (t : β → α) (f g : α → K) (points : List β) :
    cov f g (points.map t) = cov (fun p => f (t p)) (fun p => g (t p)) points := by
  unfold cov
  rw [mean_map, mean_map, mean_map]

theorem residual_map {β : Type*} (t : β → α) (f g : α → K) (m c : K) (points : List β) :
    residual f g m c (points.map t) =
      residual (fun p => f (t p)) (fun p => g (t p)) m c points := by
  unfold residual total
  rw [List.foldl_map]

theorem slope_map {β : Type*} (t : β → α) (f g : α → K) (points : List β) :
    slope f g (points.map t) = slope (fun p => f (t p)) (fun p => g (t p)) points := by
  unfold slope
  rw [cov_map, cov_map]

theorem intercept_map {β : Type*} (t : β → α) (f g : α → K) (points : List β) :
    intercept f g (points.map t) = intercept (fun p => f (t p)) (fun p => g (t p)) points := by
  unfold intercept
  rw [slope_map, mean_map, mean_map]

/-! ## Translations -/

section Translations

variable [CharZero K]

theorem cov_add {points : List α} (h : points ≠ []) (f g : α → K) (a b : K) :
    cov (fun p => f p + a) (fun p => g p + b) points = cov f g points := by
  have hproduct : mean (fun p => (f p + a) * (g p + b)) points =
      mean (fun p => f p * g p) points + b * mean f points + a * mean g points + a * b := by
    have hexpand : (fun p => (f p + a) * (g p + b)) = fun p =>
        (f p * g p + b * f p + a * g p) + a * b := by
      funext p
      ring
    rw [hexpand, mean_add h]
    simp only [mean_eq_sum]
    rw [List.sum_map_add, List.sum_map_add, List.sum_map_mul_left, List.sum_map_mul_left]
    ring
  unfold cov
  rw [hproduct, mean_add h, mean_add h]
  ring

theorem slope_add {points : List α} (h : points ≠ []) (f g : α → K) (a b : K) :
    slope (fun p => f p + a) (fun p => g p + b) points = slope f g points := by
  unfold slope
  rw [cov_add h, cov_add h]

/-- Moving the points does not change how well the best line fits. -/
theorem residual_fit_add {points : List α} (h : points ≠ []) (f g : α → K) (a b : K) :
    residual (fun p => f p + a) (fun p => g p + b) (slope (fun p => f p + a) (fun p => g p + b)
        points) (intercept (fun p => f p + a) (fun p => g p + b) points) points =
      residual f g (slope f g points) (intercept f g points) points := by
  have hmoved : ∀ p, g p + b - slope f g points * (f p + a) -
      (mean g points + b - slope f g points * (mean f points + a)) =
        g p - slope f g points * f p - (mean g points - slope f g points * mean f points) := by
    intro p
    ring
  rw [residual_eq_sum, residual_eq_sum, intercept, intercept, slope_add h, mean_add h,
    mean_add h]
  simp only [hmoved]

end Translations

end MinotaurRobot.Lib.LeastSquares
