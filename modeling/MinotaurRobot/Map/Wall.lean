import Mathlib.Data.Rat.Lemmas
import Mathlib.Algebra.Order.Ring.Rat
import Mathlib.Tactic.Linarith
import MinotaurRobot.Lib.WeakOrder

/-!
# The order of walls

`Wall::operator<` compares the intercepts of two walls whose angles are near
each other, and the angles of all others.  `ComWallFrame` keeps its walls in a
`std::set`, which needs a strict weak order with `operator==` as the
incomparability.

Irreflexivity and the incomparability hold for all walls.  Both kinds of
transitivity fail for chains of near walls; `laws_iff_separated` gives the sets
of walls for which they hold.  Angles and intercepts are exact rationals.
-/

namespace MinotaurRobot.Map

open Lib.WeakOrder

/-! ## `wall.h` -/

/-- `ORIENT_EQUAL_THRESH`. -/
def orientEqualThresh : ℚ := 0.2

/-- `INTERCEPT_EQUAL_THRESH`. -/
def interceptEqualThresh : ℚ := 1200

/-- `PI`. -/
def pi : ℚ := 3.1415926535

theorem interceptEqualThresh_pos : 0 < interceptEqualThresh := by
  unfold interceptEqualThresh
  norm_num

theorem pi_pos : 0 < pi := by
  unfold pi
  norm_num

/-- `diff_angle`. -/
def diffAngle (a b : ℚ) : ℚ :=
  let d := a - b
  d + (if d > pi then -2 * pi else if d < -pi then 2 * pi else 0)

structure Wall where
  orient : ℚ
  yint : ℚ
  deriving DecidableEq, Repr

namespace Wall

/-- `operator==`. -/
def eq (this rhs : Wall) : Bool :=
  if |rhs.yint - this.yint| < interceptEqualThresh then
    if |diffAngle rhs.orient this.orient| < orientEqualThresh then true else false
  else false

/-- `operator<`. -/
def lt (this rhs : Wall) : Bool :=
  if |diffAngle rhs.orient this.orient| < orientEqualThresh then
    if |rhs.yint - this.yint| < interceptEqualThresh then false
    else this.yint < rhs.yint
  else this.orient < rhs.orient

/-! ## The two operators on near and on other walls -/

/-- The angles of the two walls are within the tolerance. -/
def Near (a b : Wall) : Prop := |diffAngle b.orient a.orient| < orientEqualThresh

instance (a b : Wall) : Decidable (Near a b) := inferInstanceAs (Decidable (_ < _))

theorem diffAngle_neg (a b : ℚ) : diffAngle b a = -diffAngle a b := by
  have hpi := pi_pos
  unfold diffAngle
  dsimp only
  split_ifs <;> linarith

theorem near_comm {a b : Wall} : Near a b ↔ Near b a := by
  unfold Near
  rw [diffAngle_neg, abs_neg]

/-- Walls with one angle are near each other. -/
theorem near_of_orient_eq {a b : Wall} (h : a.orient = b.orient) : Near a b := by
  have hpi := pi_pos
  unfold Near diffAngle
  rw [h, sub_self]
  dsimp only
  rw [if_neg (by linarith), if_neg (by linarith), add_zero, abs_zero, orientEqualThresh]
  norm_num

theorem lt_of_near {a b : Wall} (h : Near a b) :
    lt a b = true ↔ a.yint + interceptEqualThresh ≤ b.yint := by
  have hthresh := interceptEqualThresh_pos
  unfold Near at h
  unfold lt
  rw [if_pos h]
  split_ifs with hclose
  · rw [abs_lt] at hclose
    constructor
    · intro hfalse
      cases hfalse
    · intro hle
      linarith
  · rw [decide_eq_true_eq]
    rw [abs_lt, not_and_or, not_lt, not_lt] at hclose
    constructor
    · intro hlt
      rcases hclose with hclose | hclose <;> linarith
    · intro hle
      linarith

theorem lt_of_not_near {a b : Wall} (h : ¬Near a b) : lt a b = true ↔ a.orient < b.orient := by
  unfold Near at h
  unfold lt
  rw [if_neg h, decide_eq_true_eq]

theorem eq_iff {a b : Wall} :
    eq a b = true ↔ Near a b ∧ |b.yint - a.yint| < interceptEqualThresh := by
  unfold eq Near
  by_cases hclose : |b.yint - a.yint| < interceptEqualThresh
  · by_cases hnear : |diffAngle b.orient a.orient| < orientEqualThresh
    · rw [if_pos hclose, if_pos hnear]
      exact ⟨fun _ => ⟨hnear, hclose⟩, fun _ => rfl⟩
    · rw [if_pos hclose, if_neg hnear]
      exact ⟨fun h => absurd h (by simp), fun h => absurd h.1 hnear⟩
  · rw [if_neg hclose]
    exact ⟨fun h => absurd h (by simp), fun h => absurd h.2 hclose⟩

/-! ## What holds for all walls -/

theorem not_lt_self (a : Wall) : ¬lt a a = true := by
  have hthresh := interceptEqualThresh_pos
  rw [lt_of_near (near_of_orient_eq rfl)]
  intro h
  linarith

theorem lt_asymm (a b : Wall) (h : lt a b = true) : ¬lt b a = true := by
  have hthresh := interceptEqualThresh_pos
  by_cases hnear : Near a b
  · rw [lt_of_near hnear] at h
    rw [lt_of_near (near_comm.1 hnear)]
    intro h'
    linarith
  · rw [lt_of_not_near hnear] at h
    rw [lt_of_not_near (mt near_comm.2 hnear)]
    exact h.le.not_gt

/-- `operator==` is the incomparability of `operator<`. -/
theorem incomparable_iff_eq (a b : Wall) :
    Incomparable (fun a b => lt a b = true) a b ↔ eq a b = true := by
  show ¬lt a b = true ∧ ¬lt b a = true ↔ _
  rw [eq_iff]
  by_cases hnear : Near a b
  · rw [lt_of_near hnear, lt_of_near (near_comm.1 hnear), abs_lt]
    constructor
    · intro h
      obtain ⟨hab, hba⟩ := h
      refine ⟨hnear, ?_, ?_⟩ <;> linarith
    · intro h
      obtain ⟨-, hlow, hhigh⟩ := h
      refine ⟨?_, ?_⟩ <;> intro hle <;> linarith
  · rw [lt_of_not_near hnear, lt_of_not_near (mt near_comm.2 hnear)]
    constructor
    · intro h
      have horient : a.orient = b.orient := le_antisymm (not_lt.1 h.2) (not_lt.1 h.1)
      exact absurd (near_of_orient_eq horient) hnear
    · intro h
      exact absurd h.1 hnear

/-! ## The laws of a `std::set` -/

/-- `operator<` orders the walls of `S` strictly and weakly, and `operator==`
is its incomparability. -/
structure Laws (S : Set Wall) : Prop where
  irrefl : ∀ a ∈ S, lt a a = false
  trans : ∀ a ∈ S, ∀ b ∈ S, ∀ c ∈ S, lt a b = true → lt b c = true → lt a c = true
  incomparable : ∀ a ∈ S, ∀ b ∈ S, (lt a b = false ∧ lt b a = false) ↔ eq a b = true
  eq_trans : ∀ a ∈ S, ∀ b ∈ S, ∀ c ∈ S, eq a b = true → eq b c = true → eq a c = true

/-- The intercept of `b` is above that of `a` by the tolerance. -/
def Above (b a : Wall) : Prop := a.yint + interceptEqualThresh ≤ b.yint

/-- The intercept of a wall that is near two others keeps it apart from one of
them, when these two are apart.  The angle of a wall that is near neither of
two near walls does not lie between theirs, or their intercepts are in order. -/
structure Separated (S : Set Wall) : Prop where
  angles : ∀ p ∈ S, ∀ q ∈ S, ∀ r ∈ S, Near p r → Near r q → ¬Near p q →
    p.orient < q.orient → Above r p ∨ Above q r
  intercepts : ∀ p ∈ S, ∀ q ∈ S, ∀ r ∈ S, Near p r → Near r q → Near p q →
    Above q p → Above r p ∨ Above q r
  between : ∀ p ∈ S, ∀ q ∈ S, ∀ r ∈ S, Near p q → ¬Near p r → ¬Near r q →
    p.orient < r.orient → r.orient < q.orient → Above q p

theorem laws_iff_weakOn (S : Set Wall) : Laws S ↔ WeakOn (fun a b => lt a b = true) S := by
  constructor
  · intro h
    refine ⟨h.trans, ?_⟩
    intro a ha b hb c hc hab hbc
    rw [incomparable_iff_eq] at hab hbc ⊢
    exact h.eq_trans a ha b hb c hc hab hbc
  · intro h
    refine ⟨fun a _ => ?_, h.trans, fun a _ b _ => ?_, ?_⟩
    · exact Bool.eq_false_iff.2 (not_lt_self a)
    · rw [← incomparable_iff_eq]
      unfold Incomparable
      rw [Bool.eq_false_iff, Bool.eq_false_iff]
    · intro a ha b hb c hc hab hbc
      rw [← incomparable_iff_eq] at hab hbc ⊢
      exact h.incomparable_trans a ha b hb c hc hab hbc

/-- Two walls cannot be above each other. -/
theorem Above.asymm {a b : Wall} (h : Above b a) : ¬Above a b := by
  have hthresh := interceptEqualThresh_pos
  unfold Above at h ⊢
  intro h'
  linarith

/-- Walls that are not near each other have different angles. -/
theorem orient_lt_or_gt {a b : Wall} (h : ¬Near a b) : a.orient < b.orient ∨ b.orient < a.orient :=
  lt_or_gt_of_ne fun horient => h (near_of_orient_eq horient)

theorem Separated.of_negTransOn {S : Set Wall}
    (h : NegTransOn (fun a b => lt a b = true) S) : Separated S := by
  refine ⟨?_, ?_, ?_⟩
  · intro p hp q hq r hr hpr hrq hpq horient
    have hside : lt p r = true ∨ lt r q = true := h p hp r hr q hq ((lt_of_not_near hpq).2 horient)
    rwa [lt_of_near hpr, lt_of_near hrq] at hside
  · intro p hp q hq r hr hpr hrq hpq habove
    have hside : lt p r = true ∨ lt r q = true := h p hp r hr q hq ((lt_of_near hpq).2 habove)
    rwa [lt_of_near hpr, lt_of_near hrq] at hside
  · intro p hp q hq r hr hpq hpr hrq hpr' hrq'
    have hside : lt p q = true ∨ lt q r = true := h p hp q hq r hr ((lt_of_not_near hpr).2 hpr')
    rw [lt_of_near hpq, lt_of_not_near (mt near_comm.2 hrq)] at hside
    exact hside.resolve_right hrq'.le.not_gt

/-- Which condition applies depends on the pairs that are near. -/
theorem Separated.negTransOn {S : Set Wall} (h : Separated S) :
    NegTransOn (fun a b => lt a b = true) S := by
  intro p hp r hr q hq hlt
  show lt p r = true ∨ lt r q = true
  have hlt : lt p q = true := hlt
  by_cases hpr : Near p r <;> by_cases hrq : Near r q <;> by_cases hpq : Near p q
  · rw [lt_of_near hpq] at hlt
    rw [lt_of_near hpr, lt_of_near hrq]
    exact h.intercepts p hp q hq r hr hpr hrq hpq hlt
  · rw [lt_of_not_near hpq] at hlt
    rw [lt_of_near hpr, lt_of_near hrq]
    exact h.angles p hp q hq r hr hpr hrq hpq hlt
  · rw [lt_of_near hpq] at hlt
    rw [lt_of_near hpr, lt_of_not_near hrq]
    rcases orient_lt_or_gt hrq with hlt' | hgt
    · exact Or.inr hlt'
    · rcases h.angles q hq r hr p hp (near_comm.1 hpq) hpr (mt near_comm.1 hrq) hgt with
        habove | habove
      · exact absurd habove (Above.asymm hlt)
      · exact Or.inl habove
  · rw [lt_of_not_near hpq] at hlt
    rw [lt_of_near hpr, lt_of_not_near hrq]
    rcases orient_lt_or_gt hrq with hlt' | hgt
    · exact Or.inr hlt'
    · exact Or.inl (h.between p hp r hr q hq hpr hpq (mt near_comm.1 hrq) hlt hgt)
  · rw [lt_of_near hpq] at hlt
    rw [lt_of_not_near hpr, lt_of_near hrq]
    rcases orient_lt_or_gt hpr with hlt' | hgt
    · exact Or.inl hlt'
    · rcases h.angles r hr p hp q hq hrq (near_comm.1 hpq) (mt near_comm.1 hpr) hgt with
        habove | habove
      · exact Or.inr habove
      · exact absurd habove (Above.asymm hlt)
  · rw [lt_of_not_near hpq] at hlt
    rw [lt_of_not_near hpr, lt_of_near hrq]
    rcases orient_lt_or_gt hpr with hlt' | hgt
    · exact Or.inl hlt'
    · exact Or.inr (h.between r hr q hq p hp hrq (mt near_comm.1 hpr) hpq hgt hlt)
  · rw [lt_of_near hpq] at hlt
    rw [lt_of_not_near hpr, lt_of_not_near hrq]
    rcases orient_lt_or_gt hpr with hlt' | hgt
    · exact Or.inl hlt'
    · rcases orient_lt_or_gt hrq with hlt' | hgt'
      · exact Or.inr hlt'
      · have habove := h.between q hq p hp r hr (near_comm.1 hpq) (mt near_comm.1 hrq)
          (mt near_comm.1 hpr) hgt' hgt
        exact absurd habove (Above.asymm hlt)
  · rw [lt_of_not_near hpq] at hlt
    rw [lt_of_not_near hpr, lt_of_not_near hrq]
    by_cases hlt' : p.orient < r.orient
    · exact Or.inl hlt'
    · exact Or.inr ((not_lt.1 hlt').trans_lt hlt)

/-- `operator<` is a strict weak order on a set of walls, with `operator==` as
its incomparability, exactly if the walls are separated. -/
theorem laws_iff_separated (S : Set Wall) : Laws S ↔ Separated S := by
  rw [laws_iff_weakOn, weakOn_iff_negTransOn lt_asymm]
  exact ⟨Separated.of_negTransOn, Separated.negTransOn⟩

/-- Three walls with one intercept, whose angles are 0.15 apart: the first and
the last are ordered, although both equal the one between. -/
theorem eq_not_trans :
    eq ⟨0, 0⟩ ⟨3 / 20, 0⟩ = true ∧ eq ⟨3 / 20, 0⟩ ⟨3 / 10, 0⟩ = true ∧
      eq ⟨0, 0⟩ ⟨3 / 10, 0⟩ = false ∧ lt ⟨0, 0⟩ ⟨3 / 10, 0⟩ = true ∧ ¬Laws Set.univ := by
  have h₁ : eq ⟨0, 0⟩ ⟨3 / 20, 0⟩ = true := by decide +kernel
  have h₂ : eq ⟨3 / 20, 0⟩ ⟨3 / 10, 0⟩ = true := by decide +kernel
  have h₃ : eq ⟨0, 0⟩ ⟨3 / 10, 0⟩ = false := by decide +kernel
  refine ⟨h₁, h₂, h₃, by decide +kernel, ?_⟩
  intro h
  have := h.eq_trans _ trivial _ trivial _ trivial h₁ h₂
  rw [h₃] at this
  cases this

end Wall

end MinotaurRobot.Map
