import Mathlib.Data.List.DropRight
import Mathlib.Data.List.Induction
import Mathlib.Tactic.Common

/-!
# A window of the last bits

A register is a function from places to bits, and the newest bit is at place
`0`.  `push` takes one more bit in, and all others move up by one place.

* `ones_push` is the exact account of one step: what comes in at place `0`
  and what goes out at place `n` are the change of the count.
* `front_pushAll` says that the lowest `n` places are the last `n` bits of
  what was there before, followed by everything that came in.
-/

namespace MinotaurRobot.Lib.Window

/-- How many of the places below `n` are set. -/
def ones (n : Nat) (w : Nat → Bool) : Nat := (List.range n).countP w

/-- The places below `n`, the oldest bit first. -/
def front : Nat → (Nat → Bool) → List Bool
  | 0, _ => []
  | n + 1, w => w n :: front n w

def push (w : Nat → Bool) (b : Bool) : Nat → Bool
  | 0 => b
  | n + 1 => w n

def pushAll (w : Nat → Bool) (bits : List Bool) : Nat → Bool := bits.foldl push w

variable {n : Nat} {w w' : Nat → Bool}

theorem ones_succ (n : Nat) (w : Nat → Bool) : ones (n + 1) w = ones n w + (w n).toNat := by
  rw [ones, List.range_succ, List.countP_append, List.countP_singleton]
  cases w n <;> rfl

theorem ones_le (n : Nat) (w : Nat → Bool) : ones n w ≤ n := by
  have hle := List.countP_le_length (p := w) (l := List.range n)
  rwa [List.length_range] at hle

theorem ones_congr (h : ∀ i < n, w i = w' i) : ones n w = ones n w' := by
  unfold ones
  apply List.countP_congr
  intro i hi
  rw [h i (List.mem_range.1 hi)]

/-- The bit that came in and the count before are the count of one place more. -/
theorem ones_push (n : Nat) (w : Nat → Bool) (b : Bool) :
    ones n (push w b) + (push w b n).toNat = ones n w + b.toNat := by
  rw [← ones_succ]
  induction n with
  | zero => rw [ones_succ]; rfl
  | succ n ih =>
    have hlast : push w b (n + 1) = w n := rfl
    rw [ones_succ, ih, hlast, ones_succ]
    omega

theorem length_front (n : Nat) (w : Nat → Bool) : (front n w).length = n := by
  induction n with
  | zero => rfl
  | succ n ih => rw [front, List.length_cons, ih]

theorem count_front (n : Nat) (w : Nat → Bool) : (front n w).count true = ones n w := by
  induction n with
  | zero => rfl
  | succ n ih =>
    rw [front, List.count_cons, ih, ones_succ]
    cases w n <;> rfl

theorem front_push (n : Nat) (w : Nat → Bool) (b : Bool) :
    front (n + 1) (push w b) = front n w ++ [b] := by
  induction n with
  | zero => rfl
  | succ n ih =>
    show w n :: front (n + 1) (push w b) = w n :: (front n w ++ [b])
    rw [ih]

/-- What is in front of a long list does not reach into its end. -/
theorem rtake_append_of_le {l tail : List Bool} (h : n ≤ tail.length) :
    (l ++ tail).rtake n = tail.rtake n := by
  have hlen : (l ++ tail).length - n = l.length + (tail.length - n) := by
    rw [List.length_append]
    omega
  unfold List.rtake
  rw [hlen, List.drop_length_add_append]

theorem front_pushAll (n : Nat) (w : Nat → Bool) (bits : List Bool) :
    front n (pushAll w bits) = (front n w ++ bits).rtake n := by
  induction bits using List.reverseRecOn generalizing n with
  | nil =>
    unfold List.rtake
    rw [List.append_nil, length_front, Nat.sub_self, List.drop_zero]
    rfl
  | append_singleton bits b ih =>
    cases n with
    | zero => rw [List.rtake_zero]; rfl
    | succ n =>
      have hlen : n ≤ (front n w ++ bits).length := by
        rw [List.length_append, length_front]
        omega
      rw [pushAll, List.foldl_concat, front_push, ← List.append_assoc, List.rtake_concat_succ]
      show front n (pushAll w bits) ++ [b] = ([w n] ++ (front n w ++ bits)).rtake n ++ [b]
      rw [rtake_append_of_le hlen, ih]

/-- The count of the window is over the last `n` bits, and what was there
before stands in for the missing ones. -/
theorem ones_pushAll (n : Nat) (w : Nat → Bool) (bits : List Bool) :
    ones n (pushAll w bits) = ((front n w ++ bits).rtake n).count true := by
  rw [← count_front, front_pushAll]

end MinotaurRobot.Lib.Window
