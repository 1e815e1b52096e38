import Mathlib.Data.List.Induction
import Mathlib.Data.List.Infix
import Mathlib.Tactic.Common

/-!
# Runs of a machine

A machine takes one event at a time, and a step that is not possible is
`none`.  `run` takes a list of events.

The rules are about the beginnings of a run:

* `run_concat` and `run_of_prefix` take a run apart.
* `invariant` is the induction along a run.
* `always_iff` is for a property that every step keeps under a condition, and
  breaks otherwise: it holds in all states of a run exactly if all steps meet
  the condition.
* `checked` evaluates such a condition along a given run, and `checkedCuts` one
  on the events in front of each event.
-/

namespace MinotaurRobot.Lib.Runs

variable {S E : Type}

def run (step : S → E → Option S) : S → List E → Option S
  | s, [] => some s
  | s, e :: events => (step s e).bind fun s' => run step s' events

variable {step : S → E → Option S} {s₀ s : S} {events pre : List E} {e : E}

theorem run_append (xs ys : List E) :
    run step s₀ (xs ++ ys) = (run step s₀ xs).bind fun s => run step s ys := by
  induction xs generalizing s₀ with
  | nil => rfl
  | cons x xs ih =>
    rw [List.cons_append, run, run, Option.bind_assoc]
    congr 1
    funext s'
    exact ih

theorem run_concat {s'' : S} :
    run step s₀ (events ++ [e]) = some s'' ↔
      ∃ s', run step s₀ events = some s' ∧ step s' e = some s'' := by
  rw [run_append, Option.bind_eq_some_iff]
  simp [run]

/-- The front of a run is a run. -/
theorem run_of_prefix (hpre : pre <+: events) (h : run step s₀ events = some s) :
    ∃ s', run step s₀ pre = some s' := by
  obtain ⟨suf, rfl⟩ := hpre
  rw [run_append, Option.bind_eq_some_iff] at h
  obtain ⟨s', hs', -⟩ := h
  exact ⟨s', hs'⟩

/-- What the start state has and every step of the run keeps. -/
theorem invariant (inv : S → Prop) (hinit : inv s₀)
    (hstep : ∀ pre e s s', pre ++ [e] <+: events → run step s₀ pre = some s → inv s →
      step s e = some s' → inv s')
    (hpre : pre <+: events) (h : run step s₀ pre = some s) : inv s := by
  induction pre using List.reverseRecOn generalizing s with
  | nil =>
    rw [run, Option.some.injEq] at h
    rw [← h]
    exact hinit
  | append_singleton pre e ih =>
    obtain ⟨s', hrun, hlast⟩ := run_concat.1 h
    exact hstep pre e s' s hpre hrun (ih ((List.prefix_append pre [e]).trans hpre) hrun) hlast

/-- A property that holds at the start, and that a step keeps exactly under
the condition `cond`, holds along a run exactly if every step meets `cond`.
The invariant `inv` is needed of good states only. -/
theorem always_iff (inv good : S → Prop) (cond : S → E → Prop) (hinv : inv s₀) (hgood : good s₀)
    (hstep : ∀ s e s', inv s → good s → step s e = some s' → inv s' ∧ (good s' ↔ cond s e))
    (h : run step s₀ events = some s) :
    (∀ pre s, pre <+: events → run step s₀ pre = some s → good s) ↔
      ∀ pre e s, pre ++ [e] <+: events → run step s₀ pre = some s → cond s e := by
  constructor
  · intro hall pre e s₁ hpre hrun
    have hfront := (List.prefix_append pre [e]).trans hpre
    have hinv₁ : inv s₁ := by
      apply invariant inv hinv ?_ hfront hrun
      intro pre' e' s' s'' hpre' hrun' hinv' hlast
      have hgood' := hall pre' s' ((List.prefix_append pre' [e']).trans hpre') hrun'
      exact (hstep s' e' s'' hinv' hgood' hlast).1
    obtain ⟨s₂, hrun₂⟩ := run_of_prefix hpre h
    obtain ⟨s', hrun', hlast⟩ := run_concat.1 hrun₂
    rw [hrun, Option.some.injEq] at hrun'
    rw [← hrun'] at hlast
    exact (hstep s₁ e s₂ hinv₁ (hall pre s₁ hfront hrun) hlast).2.1 (hall _ s₂ hpre hrun₂)
  · intro hcond pre s₁ hpre hrun
    have hboth : inv s₁ ∧ good s₁ := by
      apply invariant (fun s => inv s ∧ good s) ⟨hinv, hgood⟩ ?_ hpre hrun
      intro pre' e' s' s'' hpre' hrun' hboth hlast
      obtain ⟨hinv'', hiff⟩ := hstep s' e' s'' hboth.1 hboth.2 hlast
      exact ⟨hinv'', hiff.2 (hcond pre' e' s' hpre' hrun')⟩
    exact hboth.2

/-- Whether every step of a run meets a condition. -/
def checked (step : S → E → Option S) (cond : S → E → Bool) : S → List E → Bool
  | _, [] => true
  | s, e :: events =>
    cond s e && match step s e with
      | none => true
      | some s' => checked step cond s' events

theorem of_checked {cond : S → E → Bool} (h : checked step cond s₀ events = true)
    (hpre : pre ++ [e] <+: events) (hrun : run step s₀ pre = some s) : cond s e = true := by
  induction events generalizing pre s₀ with
  | nil => simp at hpre
  | cons x events ih =>
    rw [checked, Bool.and_eq_true] at h
    cases pre with
    | nil =>
      obtain ⟨rfl, -⟩ := List.cons_prefix_cons.1 hpre
      cases hrun
      exact h.1
    | cons y pre =>
      obtain ⟨rfl, hrest⟩ := List.cons_prefix_cons.1 hpre
      obtain ⟨s', hstep, hrun'⟩ := Option.bind_eq_some_iff.1 hrun
      rw [hstep] at h
      exact ih h.2 hrest hrun'

/-- Whether every event meets a condition on it and the events before. -/
def checkedCuts (cond : List E → E → Bool) : List E → List E → Bool
  | _, [] => true
  | before, e :: events => cond before e && checkedCuts cond (before ++ [e]) events

theorem of_checkedCuts {cond : List E → E → Bool} {before : List E}
    (h : checkedCuts cond before events = true) (hpre : pre ++ [e] <+: events) :
    cond (before ++ pre) e = true := by
  induction events generalizing pre before with
  | nil => simp at hpre
  | cons x events ih =>
    rw [checkedCuts, Bool.and_eq_true] at h
    cases pre with
    | nil =>
      obtain ⟨rfl, -⟩ := List.cons_prefix_cons.1 hpre
      rw [List.append_nil]
      exact h.1
    | cons y pre =>
      obtain ⟨rfl, hrest⟩ := List.cons_prefix_cons.1 hpre
      have htail := ih h.2 hrest
      rwa [List.append_assoc] at htail

end MinotaurRobot.Lib.Runs
