import Mathlib.Data.Set.Defs
import Mathlib.Tactic.Common

/-!
# Strict weak orders on a set

A sorted container needs an order that is transitive and whose
incomparability is transitive.  For an asymmetric relation both together are
one law, `NegTransOn`: of three members, whatever is below the third is below
the second, or the second is below the third.
-/

namespace MinotaurRobot.Lib.WeakOrder

variable {A : Type}

/-- Neither of the two is below the other. -/
def Incomparable (lt : A → A → Prop) (a b : A) : Prop := ¬lt a b ∧ ¬lt b a

/-- The order and its incomparability are transitive on `S`. -/
structure WeakOn (lt : A → A → Prop) (S : Set A) : Prop where
  trans : ∀ a ∈ S, ∀ b ∈ S, ∀ c ∈ S, lt a b → lt b c → lt a c
  incomparable_trans : ∀ a ∈ S, ∀ b ∈ S, ∀ c ∈ S,
    Incomparable lt a b → Incomparable lt b c → Incomparable lt a c

/-- Every member is on one side of a pair that is in order. -/
def NegTransOn (lt : A → A → Prop) (S : Set A) : Prop :=
  ∀ a ∈ S, ∀ b ∈ S, ∀ c ∈ S, lt a c → lt a b ∨ lt b c

variable {lt : A → A → Prop} {S : Set A}

theorem NegTransOn.trans (hasymm : ∀ a b, lt a b → ¬lt b a) (h : NegTransOn lt S) {a b c : A}
    (ha : a ∈ S) (hb : b ∈ S) (hc : c ∈ S) (hab : lt a b) (hbc : lt b c) : lt a c := by
  rcases h a ha c hc b hb hab with hac | hcb
  · exact hac
  · exact absurd hcb (hasymm b c hbc)

theorem NegTransOn.incomparable_trans (h : NegTransOn lt S) {a b c : A}
    (ha : a ∈ S) (hb : b ∈ S) (hc : c ∈ S) (hab : Incomparable lt a b)
    (hbc : Incomparable lt b c) : Incomparable lt a c := by
  constructor
  · intro hac
    rcases h a ha b hb c hc hac with hlt | hlt
    · exact hab.1 hlt
    · exact hbc.1 hlt
  · intro hca
    rcases h c hc b hb a ha hca with hlt | hlt
    · exact hbc.2 hlt
    · exact hab.2 hlt

/-- In a weak order a member next to a pair is comparable with one of the two,
and transitivity says on which side. -/
theorem WeakOn.negTrans (h : WeakOn lt S) : NegTransOn lt S := by
  intro a ha b hb c hc hac
  by_contra hnone
  obtain ⟨hab, hbc⟩ := not_or.1 hnone
  have hba : ¬lt b a := fun hba => hbc (h.trans b hb a ha c hc hba hac)
  have hcb : ¬lt c b := fun hcb => hab (h.trans a ha c hc b hb hac hcb)
  exact (h.incomparable_trans a ha b hb c hc ⟨hab, hba⟩ ⟨hbc, hcb⟩).1 hac

theorem weakOn_iff_negTransOn (hasymm : ∀ a b, lt a b → ¬lt b a) :
    WeakOn lt S ↔ NegTransOn lt S := by
  constructor
  · exact WeakOn.negTrans
  · intro h
    exact ⟨fun a ha b hb c hc => h.trans hasymm ha hb hc,
      fun a ha b hb c hc => h.incomparable_trans ha hb hc⟩

end MinotaurRobot.Lib.WeakOrder
