import Mathlib.Data.List.MinMax
import Mathlib.Tactic.Common

/-!
# Scans for the largest value

A loop that keeps the largest value so far, with a label, and replaces both
only for a strictly larger value.  It starts with a value and a label of its
own.  `scan_mem_argmax` says that the loop finds the first place of the largest
value, where the start counts as a place in front of all others.

If the label of the start is also that of one place in the list, the loop ends
with this label for two reasons, which `scan_label_iff` tells apart.
-/

namespace MinotaurRobot.Lib.Argmax

variable {ι K L : Type} [LinearOrder K]

/-- One round of the loop. -/
def scanStep (f : ι → K) (label : ι → L) (best : K × L) (i : ι) : K × L :=
  if f i > best.1 then (f i, label i) else best

def scan (f : ι → K) (label : ι → L) (best : K × L) (l : List ι) : K × L :=
  l.foldl (scanStep f label) best

/-- An element of a list without repetition is the first largest one if those
in front of it are smaller, and those behind it are not larger. -/
theorem mem_argmax_append_cons [DecidableEq ι] {f : ι → K} {pre suf : List ι} {c : ι}
    (hc : c ∉ pre) :
    c ∈ (pre ++ c :: suf).argmax f ↔ (∀ a ∈ pre, f a < f c) ∧ ∀ a ∈ suf, f a ≤ f c := by
  have hidx : (pre ++ c :: suf).idxOf c = pre.length := by
    rw [List.idxOf_append_of_notMem hc, List.idxOf_cons_self, Nat.add_zero]
  rw [List.mem_argmax_iff]
  constructor
  · rintro ⟨-, hle, hfirst⟩
    refine ⟨?_, ?_⟩
    · intro a ha
      by_contra hnot
      have hbehind := hfirst a (List.mem_append_left _ ha) (not_lt.1 hnot)
      rw [hidx, List.idxOf_append_of_mem ha] at hbehind
      have hlt := List.idxOf_lt_length_of_mem ha
      omega
    · intro a ha
      exact hle a (List.mem_append_right pre (List.mem_cons_of_mem c ha))
  · rintro ⟨hfront, hbehind⟩
    refine ⟨List.mem_append_right pre (List.mem_cons_self ..), ?_, ?_⟩
    · intro a ha
      rcases List.mem_append.1 ha with hpre | hrest
      · exact (hfront a hpre).le
      · rcases List.mem_cons.1 hrest with rfl | hsuf
        · exact le_refl _
        · exact hbehind a hsuf
    · intro a ha hle
      have hnot : a ∉ pre := fun hpre => absurd (hfront a hpre) (not_lt.2 hle)
      rw [hidx, List.idxOf_append_of_notMem hnot]
      omega

/-- The value of a place, and of the start. -/
def valueOf (f : ι → K) (start : K) (o : Option ι) : K := o.elim start f

def labelOf (label : ι → L) (start : L) (o : Option ι) : L := o.elim start label

/-- The loop ends at the first largest place. -/
theorem scan_mem_argmax (f : ι → K) (label : ι → L) (best : K × L) (l : List ι) :
    ∃ m ∈ (none :: l.map some).argmax (valueOf f best.1),
      scan f label best l = (valueOf f best.1 m, labelOf label best.2 m) := by
  induction l using List.reverseRecOn with
  | nil => exact ⟨none, rfl, rfl⟩
  | append_singleton l i ih =>
    obtain ⟨m, hm, hscan⟩ := ih
    rw [scan] at hscan
    rw [scan, List.foldl_concat, hscan, List.map_append, List.map_singleton, ← List.cons_append,
      List.argmax_concat, Option.mem_def.1 hm, scanStep]
    show ∃ m' ∈ if valueOf f best.1 m < f i then some (some i) else some m, _
    split_ifs with hlt
    · exact ⟨some i, rfl, rfl⟩
    · exact ⟨m, rfl, rfl⟩

/-- The label of the start is that of `c` and of no other place.  The loop ends
with it if no value is larger than that of the start, or if `c` is the first
largest place. -/
theorem scan_label_iff [DecidableEq ι] {f : ι → K} {label : ι → L} {best : K × L}
    {pre suf : List ι} {c : ι} (hc : label c = best.2) (hpre : ∀ i ∈ pre, label i ≠ best.2)
    (hsuf : ∀ i ∈ suf, label i ≠ best.2) :
    (scan f label best (pre ++ c :: suf)).2 = best.2 ↔
      (∀ i ∈ pre ++ c :: suf, f i ≤ best.1) ∨
        best.1 < f c ∧ (∀ i ∈ pre, f i < f c) ∧ ∀ i ∈ suf, f i ≤ f c := by
  have hstart : none ∈ (none :: (pre ++ c :: suf).map some).argmax (valueOf f best.1) ↔
      ∀ i ∈ pre ++ c :: suf, f i ≤ best.1 := by
    have hfront : (none : Option ι) ∉ ([] : List (Option ι)) := List.not_mem_nil
    rw [← List.nil_append (none :: _), mem_argmax_append_cons hfront, List.forall_mem_map]
    simp only [List.not_mem_nil, false_implies, implies_true, true_and]
    rfl
  have hcentre : some c ∈ (none :: (pre ++ c :: suf).map some).argmax (valueOf f best.1) ↔
      best.1 < f c ∧ (∀ i ∈ pre, f i < f c) ∧ ∀ i ∈ suf, f i ≤ f c := by
    have hnot : some c ∉ none :: pre.map some := by
      intro hmem
      simp only [List.mem_cons, reduceCtorEq, List.mem_map, Option.some.injEq, exists_eq_right,
        false_or] at hmem
      exact hpre c hmem hc
    have hsplit : none :: (pre ++ c :: suf).map some =
        (none :: pre.map some) ++ some c :: suf.map some := by
      rw [List.map_append, List.map_cons, List.cons_append]
    rw [hsplit, mem_argmax_append_cons hnot, List.forall_mem_cons, List.forall_mem_map,
      List.forall_mem_map, and_assoc]
    rfl
  obtain ⟨m, hm, hscan⟩ := scan_mem_argmax f label best (pre ++ c :: suf)
  rw [hscan, ← hstart, ← hcentre]
  constructor
  · intro hlabel
    cases m with
    | none => exact Or.inl hm
    | some i =>
      have hi : i ∈ pre ++ c :: suf := by
        have hmem := List.argmax_mem hm
        simpa using hmem
      rcases List.mem_append.1 hi with hfront | hrest
      · exact absurd hlabel (hpre i hfront)
      · rcases List.mem_cons.1 hrest with rfl | hbehind
        · exact Or.inr hm
        · exact absurd hlabel (hsuf i hbehind)
  · intro hor
    rcases hor with hnone | hsome
    · rw [Option.mem_unique hm hnone]
      rfl
    · rw [Option.mem_unique hm hsome]
      exact hc

end MinotaurRobot.Lib.Argmax
