import Mathlib.Algebra.Group.Nat.Defs
import Mathlib.Tactic.Common

/-!
# Widening a single-precision float

A pattern of 32 bits stands for a finite number, an infinity or a NaN.  A
language that has only double-precision floats widens what it reads.  Every
finite single is a double, so that the widening keeps its value; of a NaN it
keeps the sign and the payload, and makes it quiet.

`widened_single_iff` says which patterns are widened without a change, and
`widened_single_eq` which ones are widened to the same float.
-/

namespace MinotaurRobot.Lib.Widening

/-- What a pattern stands for.  A finite float has the value
`significand * 2 ^ exponent`, with its sign. -/
inductive Datum where
  | finite (negative : Bool) (significand : ℕ) (exponent : ℤ)
  | infinite (negative : Bool)
  | nan (negative quiet : Bool) (payload : ℕ)
  deriving DecidableEq, Repr

/-- The fields of a pattern of 32 bits. -/
def negative (bits : ℕ) : Bool := decide (bits / 2 ^ 31 = 1)

def exponent (bits : ℕ) : ℕ := bits / 2 ^ 23 % 2 ^ 8

def fraction (bits : ℕ) : ℕ := bits % 2 ^ 23

def single (bits : ℕ) : Datum :=
  if exponent bits = 255 then
    if fraction bits = 0 then .infinite (negative bits)
    else .nan (negative bits) (decide (2 ^ 22 ≤ fraction bits)) (fraction bits % 2 ^ 22)
  -- a subnormal number has no hidden bit
  else if exponent bits = 0 then .finite (negative bits) (fraction bits) (-149)
  else .finite (negative bits) (2 ^ 23 + fraction bits) (exponent bits - 150)

/-- The float as a double. -/
def Datum.widened : Datum → Datum
  | .nan negative _ payload => .nan negative true payload
  | d => d

@[simp] theorem Datum.widened_widened (d : Datum) : d.widened.widened = d.widened := by
  cases d <;> rfl

/-- The pattern of a NaN that is not quiet. -/
def Signalling (bits : ℕ) : Prop :=
  exponent bits = 255 ∧ 0 < fraction bits ∧ fraction bits < 2 ^ 22

instance (bits : ℕ) : Decidable (Signalling bits) :=
  inferInstanceAs (Decidable (_ ∧ _))

/-- Only a signalling NaN is changed. -/
theorem widened_single_iff (bits : ℕ) : (single bits).widened = single bits ↔ ¬Signalling bits := by
  unfold single Signalling
  split_ifs with hexp hfrac
  · simp [Datum.widened, hfrac]
  · simp only [Datum.widened, Datum.nan.injEq, true_and, and_true, eq_comm (a := true),
      decide_eq_true_eq]
    omega
  · simp [Datum.widened, hexp]
  · simp [Datum.widened, hexp]

/-- Two patterns of one NaN, but for the bit that makes it quiet. -/
def SameNaN (bits bits' : ℕ) : Prop :=
  exponent bits = 255 ∧ bits / 2 ^ 23 = bits' / 2 ^ 23 ∧ bits % 2 ^ 22 = bits' % 2 ^ 22

theorem negative_inj {bits bits' : ℕ} (h : bits < 2 ^ 32) (h' : bits' < 2 ^ 32) :
    negative bits = negative bits' ↔ bits / 2 ^ 31 = bits' / 2 ^ 31 := by
  unfold negative
  rw [decide_eq_decide]
  omega

/-- Different patterns are widened to the same float only if they are one NaN. -/
theorem widened_single_eq {bits bits' : ℕ} (h : bits < 2 ^ 32) (h' : bits' < 2 ^ 32)
    (heq : (single bits).widened = (single bits').widened) : bits = bits' ∨ SameNaN bits bits' := by
  have hneg := negative_inj h h'
  unfold single at heq
  unfold SameNaN
  split_ifs at heq <;>
    simp only [Datum.widened, Datum.finite.injEq, Datum.infinite.injEq, Datum.nan.injEq,
      reduceCtorEq, hneg, exponent, fraction, true_and] at * <;>
    omega

end MinotaurRobot.Lib.Widening
