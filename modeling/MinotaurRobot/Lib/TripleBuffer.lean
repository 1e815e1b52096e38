import Mathlib.Logic.Function.Basic
import Mathlib.Tactic.Common

/-!
# Triple buffers

A producer fills the back buffer and exchanges it for the middle one, and a
consumer exchanges the front buffer for the middle one and reads it.  Frames
are numbered in the order in which they are completed.

Nothing records whether the middle buffer is newer than the front one.  So a
consumer that calls twice without a frame in between gets its old buffer back:
`neverBack_iff` says that this is the only way to go back in time.
-/

namespace MinotaurRobot.Lib.TripleBuffer

variable {B : Type} [DecidableEq B]

/-! ## The buffers -/

/-- Three different buffers with the numbers of the frames in them. -/
structure Triple (B : Type) where
  back : B
  mid : B
  front : B
  contents : B → Option ℕ
  /-- The number of frames completed. -/
  completed : ℕ
  back_ne_mid : back ≠ mid
  back_ne_front : back ≠ front
  mid_ne_front : mid ≠ front
  contents_le : ∀ b n, contents b = some n → n ≤ completed

/-- The producer completes a frame. -/
def Triple.complete (t : Triple B) : Triple B where
  back := t.mid
  mid := t.back
  front := t.front
  contents := Function.update t.contents t.back (some (t.completed + 1))
  completed := t.completed + 1
  back_ne_mid := t.back_ne_mid.symm
  back_ne_front := t.mid_ne_front
  mid_ne_front := t.back_ne_front
  contents_le := by
    intro b n h
    by_cases hb : b = t.back
    · rw [hb, Function.update_self, Option.some.injEq] at h
      omega
    · rw [Function.update_of_ne hb] at h
      have := t.contents_le b n h
      omega

/-- The consumer takes the middle buffer. -/
def Triple.take (t : Triple B) : Triple B where
  back := t.back
  mid := t.front
  front := t.mid
  contents := t.contents
  completed := t.completed
  back_ne_mid := t.back_ne_front
  back_ne_front := t.back_ne_mid
  mid_ne_front := t.mid_ne_front.symm
  contents_le := t.contents_le

inductive Op where
  | complete
  | take
  deriving DecidableEq, Repr

/-- What is seen of an operation: the number of the frame completed, or what
the buffer holds that is returned to the consumer. -/
inductive Obs where
  | completed (n : ℕ)
  | returned (frame : Option ℕ)
  deriving DecidableEq, Repr

def Triple.run : Triple B → List Op → List Obs
  | _, [] => []
  | t, .complete :: ops => .completed (t.completed + 1) :: t.complete.run ops
  | t, .take :: ops => .returned (t.take.contents t.take.front) :: t.take.run ops

/-! ## Going forward -/

/-- A call behind the completion of frame `n` returns a frame from `n` on. -/
def Current (obs : List Obs) : Prop :=
  ∀ pre frame suf n, obs = pre ++ .returned frame :: suf → .completed n ∈ pre →
    ∃ m, frame = some m ∧ n ≤ m

/-- The consumer never goes back in time, once a frame has been completed. -/
structure NeverBack (obs : List Obs) : Prop where
  current : Current obs
  monotone : ∀ pre frame mid frame' suf n m,
    obs = pre ++ .returned frame :: (mid ++ .returned frame' :: suf) →
    .completed n ∈ pre → frame = some m → ∃ m', frame' = some m' ∧ m ≤ m'

/-- Once a frame has been completed (`seen`), the consumer calls only if one
has been completed since its last call (`fresh`). -/
def Alternates : Bool → Bool → List Op → Prop
  | _, _, [] => True
  | _, _, .complete :: ops => Alternates true true ops
  | seen, fresh, .take :: ops => (seen = true → fresh = true) ∧ Alternates seen false ops

/-! ## Where the newest frame is -/

/-- The newest frame is in `b` and nowhere else. -/
def Triple.NewestIn (t : Triple B) (b : B) : Prop :=
  t.contents b = some t.completed ∧ ∀ b', t.contents b' = some t.completed → b' = b

/-- The newest frame is in the middle until the consumer has taken it. -/
def Triple.Phase (t : Triple B) (seen fresh : Bool) : Prop :=
  seen = true → t.NewestIn (if fresh then t.mid else t.front)

theorem phase_complete (t : Triple B) : t.complete.Phase true true := by
  intro _
  constructor
  · exact Function.update_self ..
  · intro b h
    by_contra hb
    have hb : b ≠ t.back := hb
    have hcontents : t.complete.contents b = t.contents b := Function.update_of_ne hb ..
    rw [hcontents] at h
    have hle := t.contents_le b (t.completed + 1) h
    omega

omit [DecidableEq B] in
/-- The consumer that comes in time takes the newest frame. -/
theorem phase_take {t : Triple B} {seen fresh : Bool} (h : t.Phase seen fresh)
    (hfresh : seen = true → fresh = true) : t.take.Phase seen false := by
  intro hseen
  have hnewest := h hseen
  rw [hfresh hseen, if_pos rfl] at hnewest
  exact hnewest

omit [DecidableEq B] in
/-- The newest frame is returned exactly if the consumer comes in time. -/
theorem returned_iff {t : Triple B} {seen fresh : Bool} (h : t.Phase seen fresh)
    (hseen : seen = true) : t.contents t.mid = some t.completed ↔ fresh = true := by
  have hnewest := h hseen
  constructor
  · intro hmid
    cases fresh with
    | true => rfl
    | false => exact absurd (hnewest.2 t.mid hmid) t.mid_ne_front
  · intro hfresh
    rw [hfresh, if_pos rfl] at hnewest
    exact hnewest.1

/-! ## Runs -/

/-- `Current` behind a frame that has been completed before. -/
def CurrentFrom (latest : Option ℕ) (obs : List Obs) : Prop :=
  ∀ pre frame suf n, obs = pre ++ .returned frame :: suf →
    latest = some n ∨ .completed n ∈ pre → ∃ m, frame = some m ∧ n ≤ m

theorem alternates_of_currentFrom {t : Triple B} {ops : List Op} {seen fresh : Bool}
    (hphase : t.Phase seen fresh)
    (h : CurrentFrom (if seen then some t.completed else none) (t.run ops)) :
    Alternates seen fresh ops := by
  induction ops generalizing t seen fresh with
  | nil => trivial
  | cons op ops ih =>
    cases op with
    | complete =>
      apply ih (phase_complete t)
      intro pre frame suf n hsplit hn
      apply h (.completed (t.completed + 1) :: pre) frame suf n
      · rw [Triple.run, hsplit, List.cons_append]
      · rcases hn with hn | hn
        · rw [if_pos rfl, Option.some.injEq] at hn
          rw [← hn]
          exact Or.inr List.mem_cons_self
        · exact Or.inr (List.mem_cons_of_mem _ hn)
    | take =>
      have hfresh : seen = true → fresh = true := by
        intro hseen
        obtain ⟨m, hm, hle⟩ := h [] _ _ t.completed rfl (Or.inl (if_pos hseen))
        have hbound := t.contents_le t.mid m hm
        rw [Nat.le_antisymm hbound hle] at hm
        exact (returned_iff hphase hseen).1 hm
      refine ⟨hfresh, ?_⟩
      apply ih (phase_take hphase hfresh)
      intro pre frame suf n hsplit hn
      apply h (.returned (t.take.contents t.take.front) :: pre) frame suf n
      · rw [Triple.run, hsplit, List.cons_append]
      · rcases hn with hn | hn
        · exact Or.inl hn
        · exact Or.inr (List.mem_cons_of_mem _ hn)

/-- The number of frames completed. -/
def frames (obs : List Obs) : ℕ :=
  obs.countP fun
    | .completed _ => true
    | .returned _ => false

/-- A consumer that comes in time gets the frame that was completed last. -/
theorem returned_of_alternates {t : Triple B} {ops : List Op} {seen fresh : Bool}
    (hphase : t.Phase seen fresh) (h : Alternates seen fresh ops) {pre suf : List Obs}
    {frame : Option ℕ} (hsplit : t.run ops = pre ++ .returned frame :: suf)
    (hseen : seen = true ∨ ∃ n, .completed n ∈ pre) : frame = some (t.completed + frames pre) := by
  induction ops generalizing t seen fresh pre with
  | nil => simp [Triple.run] at hsplit
  | cons op ops ih =>
    cases op with
    | complete =>
      cases pre with
      | nil => cases (List.cons.inj hsplit).1
      | cons o pre =>
        obtain ⟨rfl, hrest⟩ := List.cons.inj hsplit
        rw [ih (phase_complete t) h hrest (Or.inl rfl), Option.some.injEq]
        simp only [frames, List.countP_cons, if_true, Triple.complete]
        omega
    | take =>
      obtain ⟨hfresh, hops⟩ := h
      cases pre with
      | nil =>
        obtain ⟨hframe, -⟩ := List.cons.inj hsplit
        have hseen : seen = true := by simpa using hseen
        rw [Obs.returned.injEq] at hframe
        rw [← hframe]
        exact (returned_iff hphase hseen).2 (hfresh hseen)
      | cons o pre =>
        obtain ⟨rfl, hrest⟩ := List.cons.inj hsplit
        rw [ih (phase_take hphase hfresh) hops hrest (by simpa using hseen)]
        simp [frames, Triple.take]

/-- Frames are numbered from `1` on. -/
theorem le_of_completed_mem {t : Triple B} {ops : List Op} {pre suf : List Obs} {n : ℕ}
    (hsplit : t.run ops = pre ++ suf) (hn : .completed n ∈ pre) : n ≤ t.completed + frames pre := by
  induction ops generalizing t pre with
  | nil =>
    rw [Triple.run, eq_comm, List.append_eq_nil_iff] at hsplit
    rw [hsplit.1] at hn
    cases hn
  | cons op ops ih =>
    cases pre with
    | nil => cases hn
    | cons o pre =>
      cases op with
      | complete =>
        obtain ⟨rfl, hrest⟩ := List.cons.inj hsplit
        have hframes : frames (.completed (t.completed + 1) :: pre) = frames pre + 1 := by
          simp [frames]
        rcases List.mem_cons.1 hn with hn | hn
        · rw [Obs.completed.injEq] at hn
          omega
        · have := ih hrest hn
          have hcompleted : t.complete.completed = t.completed + 1 := rfl
          omega
      | take =>
        obtain ⟨rfl, hrest⟩ := List.cons.inj hsplit
        rcases List.mem_cons.1 hn with hn | hn
        · cases hn
        · have := ih hrest hn
          simpa [frames, Triple.take] using this

/-- The consumer never goes back in time exactly if it never calls twice
without a frame completed in between, from the first frame on. -/
theorem neverBack_iff {t : Triple B} (ht : t.completed = 0) (ops : List Op) :
    NeverBack (t.run ops) ↔ Alternates false false ops := by
  have hphase : t.Phase false false := fun h => by cases h
  constructor
  · intro h
    apply alternates_of_currentFrom hphase
    intro pre frame suf n hsplit hn
    rcases hn with hn | hn
    · cases hn
    · exact h.current pre frame suf n hsplit hn
  · intro h
    refine ⟨?_, ?_⟩
    · intro pre frame suf n hsplit hn
      refine ⟨_, returned_of_alternates hphase h hsplit (Or.inr ⟨n, hn⟩), ?_⟩
      exact le_of_completed_mem hsplit hn
    · intro pre frame mid frame' suf n m hsplit hn hm
      have hsplit' : t.run ops = (pre ++ .returned frame :: mid) ++ .returned frame' :: suf := by
        rw [hsplit]
        simp
      have hn' : .completed n ∈ pre ++ .returned frame :: mid := List.mem_append_left _ hn
      refine ⟨_, returned_of_alternates hphase h hsplit' (Or.inr ⟨n, hn'⟩), ?_⟩
      rw [returned_of_alternates hphase h hsplit (Or.inr ⟨n, hn⟩), Option.some.injEq] at hm
      have hframes : frames (pre ++ .returned frame :: mid) = frames pre + frames mid := by
        simp [frames]
      omega

end MinotaurRobot.Lib.TripleBuffer
