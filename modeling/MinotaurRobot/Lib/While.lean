import Mathlib.Tactic.Common

/-!
# While loops

`Loop test body s out` says that the loop `while (test) body` ends when it is
started in `s`.  The outcome `out` is the state behind the loop, or `none`
when the body throws.  There is no fuel: a loop that runs forever has no
outcome.

The body is a relation, so a body with a loop of its own is a body like any
other.  `Loop.functional` says that a loop has one outcome at most, and
`Loop.of_counted` that it has the outcome of a loop with a large enough count.
-/

namespace MinotaurRobot.Lib.While

variable {S : Type}

inductive Loop (test : S → Bool) (body : S → Option S → Prop) : S → Option S → Prop
  | exit {s : S} (h : test s = false) : Loop test body s (some s)
  | again {s s' : S} {out : Option S} (h : test s = true) (hbody : body s (some s'))
      (hrest : Loop test body s' out) : Loop test body s out
  | throw {s : S} (h : test s = true) (hbody : body s none) : Loop test body s none

variable {test : S → Bool} {body : S → Option S → Prop}

/-- A loop whose body has one outcome has one outcome. -/
theorem Loop.functional (hfun : ∀ s out out', body s out → body s out' → out = out') {s : S}
    {out out' : Option S} (h : Loop test body s out) (h' : Loop test body s out') :
    out = out' := by
  induction h with
  | exit hexit =>
    cases h' with
    | exit _ => rfl
    | again hgo _ _ => simp [hexit] at hgo
    | throw hgo _ => simp [hexit] at hgo
  | again hgo hbody _ ih =>
    cases h' with
    | exit hexit => simp [hgo] at hexit
    | again _ hbody' hrest' =>
      cases hfun _ _ _ hbody hbody'
      exact ih hrest'
    | throw _ hbody' => cases hfun _ _ _ hbody hbody'
  | throw hgo hbody =>
    cases h' with
    | exit hexit => simp [hgo] at hexit
    | again _ hbody' _ => cases hfun _ _ _ hbody hbody'
    | throw _ _ => rfl

/-- A loop that counts its rounds down computes the outcome of the loop that
does not, if it makes the same rounds and each of them decreases a measure. -/
theorem Loop.of_counted {counted : ℕ → S → Option S} (measure : S → ℕ)
    (hzero : ∀ s, measure s = 0 → test s = false)
    (hexit : ∀ n s, test s = false → counted n s = some s)
    (hround : ∀ n s, test s = true → ∃ out, body s out ∧
      counted (n + 1) s = out.bind (counted n) ∧ ∀ s', out = some s' → measure s' < measure s)
    {n : ℕ} {s : S} (h : measure s ≤ n) : Loop test body s (counted n s) := by
  induction n generalizing s with
  | zero =>
    have hstop := hzero s (by omega)
    rw [hexit 0 s hstop]
    exact .exit hstop
  | succ n ih =>
    cases htest : test s with
    | false =>
      rw [hexit (n + 1) s htest]
      exact .exit htest
    | true =>
      obtain ⟨out, hbody, hcounted, hless⟩ := hround n s htest
      rw [hcounted]
      cases out with
      | none => exact .throw htest hbody
      | some s' =>
        have hlt := hless s' rfl
        exact .again htest hbody (ih (by omega))

end MinotaurRobot.Lib.While
