import Mathlib.Logic.Function.Basic
import Mathlib.Tactic.Common

/-!
# Operations on addressed cells

A memory of cells is a function from addresses to contents, and an operation
changes the one cell at its address.  `applyAll` runs a list of operations.

`applyAll_apply` reads a cell off behind any list: only the operations at its
address count, in their order.  `applyAll_of_ne` is the frame rule, and
`applyAll_written` is the case of a loop that writes values.
-/

namespace MinotaurRobot.Lib.Cells

variable {A V O : Type} [DecidableEq A]

/-- Run `ops`: each one changes the cell at `addr op` by `act op`. -/
def applyAll (addr : O → A) (act : O → V → V) (cells : A → V) (ops : List O) : A → V :=
  ops.foldl (fun cells op => Function.update cells (addr op) (act op (cells (addr op)))) cells

variable {addr : O → A} {act : O → V → V}

/-- A cell holds what the operations at its address made of it. -/
theorem applyAll_apply (cells : A → V) (ops : List O) (a : A) :
    applyAll addr act cells ops a =
      (ops.filter fun op => decide (addr op = a)).foldl (fun v op => act op v) (cells a) := by
  induction ops generalizing cells with
  | nil => rfl
  | cons op ops ih =>
    have hstep : applyAll addr act cells (op :: ops) a =
        applyAll addr act (Function.update cells (addr op) (act op (cells (addr op)))) ops a := rfl
    rw [hstep, ih]
    by_cases h : addr op = a
    · subst h
      rw [List.filter_cons_of_pos (by simp), Function.update_self, List.foldl_cons]
    · rw [List.filter_cons_of_neg (by simpa using h), Function.update_of_ne (Ne.symm h)]

/-- Operations at other addresses leave a cell as it is. -/
theorem applyAll_of_ne {cells : A → V} {ops : List O} {a : A} (h : ∀ op ∈ ops, addr op ≠ a) :
    applyAll addr act cells ops a = cells a := by
  have hnone : ops.filter (fun op => decide (addr op = a)) = [] := by
    rw [List.filter_eq_nil_iff]
    intro op hop
    simpa using h op hop
  rw [applyAll_apply, hnone]
  rfl

/-- A cell that is written holds the value written, when all the writes at its
address write the same. -/
theorem applyAll_written (w : O → V) (cells : A → V) {ops : List O} {op : O} (hop : op ∈ ops)
    (hsame : ∀ o ∈ ops, addr o = addr op → w o = w op) :
    applyAll addr (fun o _ => w o) cells ops (addr op) = w op := by
  rw [applyAll_apply]
  have hmem : op ∈ ops.filter fun o => decide (addr o = addr op) := by
    rw [List.mem_filter]
    exact ⟨hop, by simp⟩
  obtain ⟨writes, last, hwrites⟩ := List.eq_nil_or_concat _ |>.resolve_left
    (List.ne_nil_of_mem hmem)
  have hlast : last ∈ ops.filter fun o => decide (addr o = addr op) := by
    rw [hwrites, List.concat_eq_append]
    exact List.mem_concat_self
  rw [List.mem_filter] at hlast
  rw [hwrites, List.concat_eq_append, List.foldl_append]
  exact hsame last hlast.1 (by simpa using hlast.2)

end MinotaurRobot.Lib.Cells
