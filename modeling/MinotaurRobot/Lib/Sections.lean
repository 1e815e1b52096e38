import MinotaurRobot.Lib.Runs

/-!
# Sections under one lock

Threads share a state and one lock.  A section takes the lock, runs its
statements one by one and gives the lock back.  The other steps of a thread are
free: they do not take the lock and may come between the statements of another
thread's section.

A section is atomic if one of its statements is its `commit` and all others
commute with the free steps of the other threads (`Atomic`).  Then every run of
statements is a run of whole sections up to the section under the lock
(`run_settled`), and exactly if the lock is free (`calls_of_run`).
-/

namespace MinotaurRobot.Lib.Sections

/-- Threads `T` with a shared state `S`, sections `C` and free steps `E`. -/
structure Program (T S C E : Type) where
  thread : C → T
  /-- Whether the thread of a section may enter it. -/
  ready : C → S → Bool
  before : C → List (S → S)
  commit : C → S → S
  after : C → List (S → S)
  freeThread : E → T
  free : E → S → Option S

variable {T S C E : Type}

/-- Statements one after the other. -/
def runAll (statements : List (S → S)) (s : S) : S := statements.foldl (fun s f => f s) s

theorem runAll_concat (statements : List (S → S)) (f : S → S) (s : S) :
    runAll (statements ++ [f]) s = f (runAll statements s) := List.foldl_concat ..

theorem runAll_cons (f : S → S) (statements : List (S → S)) (s : S) :
    runAll (f :: statements) s = runAll statements (f s) := rfl

/-! ## Whole sections -/

inductive Call (C E : Type) where
  | whole (c : C)
  | free (e : E)
  deriving DecidableEq, Repr

namespace Program

variable (p : Program T S C E)

def whole (c : C) (s : S) : S := runAll (p.after c) (p.commit c (runAll (p.before c) s))

def call (s : S) : Call C E → Option S
  | .whole c => if p.ready c s then some (p.whole c s) else none
  | .free e => p.free e s

end Program

/-! ## Single statements -/

/-- Where the thread stands that holds the lock, with the statements that it
still has in front of the commit or behind it. -/
inductive Held (S C : Type) where
  | before (c : C) (rest : List (S → S))
  | after (c : C) (rest : List (S → S))

def Held.owner : Held S C → C
  | .before c _ => c
  | .after c _ => c

structure Fine (S C : Type) where
  shared : S
  held : Option (Held S C)

inductive FineStep (C E : Type) where
  | enter (c : C)
  /-- The next statement of the section under the lock, or the unlock. -/
  | statement
  | free (e : E)
  deriving DecidableEq, Repr

/-- The thread that holds the lock goes on. -/
def Program.advance (p : Program T S C E) (s : S) : Held S C → Fine S C
  | .before c (f :: rest) => ⟨f s, some (.before c rest)⟩
  | .before c [] => ⟨p.commit c s, some (.after c (p.after c))⟩
  | .after c (f :: rest) => ⟨f s, some (.after c rest)⟩
  | .after _ [] => ⟨s, none⟩

def Program.step [DecidableEq T] (p : Program T S C E) (s : Fine S C) :
    FineStep C E → Option (Fine S C)
  | .enter c =>
    if s.held.isNone && p.ready c s.shared then
      some { s with held := some (.before c (p.before c)) }
    else none
  | .statement => s.held.map (p.advance s.shared)
  | .free e =>
    if ∀ h ∈ s.held, p.freeThread e ≠ p.thread h.owner then
      (p.free e s.shared).map fun shared => { s with shared := shared }
    else none

/-! ## Atomic sections -/

namespace Program

variable (p : Program T S C E)

/-- The free steps of the other threads leave a section ready and commute with
its statements, except with the commit. -/
structure Atomic : Prop where
  ready : ∀ c e s s', p.freeThread e ≠ p.thread c → p.ready c s = true →
    p.free e s = some s' → p.ready c s' = true
  before : ∀ c e, p.freeThread e ≠ p.thread c → ∀ f ∈ p.before c, ∀ s,
    p.free e (f s) = (p.free e s).map f
  after : ∀ c e, p.freeThread e ≠ p.thread c → ∀ f ∈ p.after c, ∀ s,
    p.free e (f s) = (p.free e s).map f

/-- The state `t` of whole sections behind the statements run so far: the
section under the lock counts from its commit on. -/
def Settled (s : Fine S C) (t : S) : Prop :=
  match s.held with
  | none => s.shared = t
  | some (.before c rest) =>
    ∃ done, p.before c = done ++ rest ∧ s.shared = runAll done t ∧ p.ready c t = true
  | some (.after c rest) => rest <:+ p.after c ∧ t = runAll rest s.shared

variable {p}

theorem free_runAll (e : E) (statements : List (S → S))
    (h : ∀ f ∈ statements, ∀ s, p.free e (f s) = (p.free e s).map f) (s : S) :
    p.free e (runAll statements s) = (p.free e s).map (runAll statements) := by
  induction statements generalizing s with
  | nil => exact Option.map_id'.symm
  | cons f statements ih =>
    rw [runAll_cons, ih (fun g hg => h g (List.mem_cons_of_mem f hg)), h f List.mem_cons_self,
      Option.map_map]
    rfl

theorem settled_advance {shared t : S} {held : Held S C} (h : p.Settled ⟨shared, some held⟩ t) :
    p.Settled (p.advance shared held) t ∨
      ∃ c, p.ready c t = true ∧ p.Settled (p.advance shared held) (p.whole c t) := by
  cases held with
  | before c rest =>
    obtain ⟨done, hdone, hshared, hready⟩ := h
    cases rest with
    | cons f rest =>
      refine Or.inl ⟨done ++ [f], by rw [hdone]; simp, ?_, hready⟩
      rw [runAll_concat]
      exact congrArg f hshared
    | nil =>
      rw [List.append_nil] at hdone
      refine Or.inr ⟨c, hready, List.suffix_refl _, ?_⟩
      rw [whole, hdone]
      exact congrArg (fun s => runAll (p.after c) (p.commit c s)) hshared.symm
  | after c rest =>
    obtain ⟨hrest, ht⟩ := h
    cases rest with
    | cons f rest => exact Or.inl ⟨(List.suffix_cons f rest).trans hrest, ht⟩
    | nil => exact Or.inl ht.symm

theorem settled_free (hatomic : p.Atomic) {s : Fine S C} {t : S} (h : p.Settled s t) {e : E}
    (hother : ∀ held ∈ s.held, p.freeThread e ≠ p.thread held.owner) {shared : S}
    (hfree : p.free e s.shared = some shared) :
    ∃ t', p.free e t = some t' ∧ p.Settled { s with shared := shared } t' := by
  rcases s with ⟨s, held⟩
  dsimp only at hfree hother ⊢
  cases held with
  | none =>
    cases h
    exact ⟨shared, hfree, rfl⟩
  | some held =>
    have hother := hother held rfl
    cases held with
    | before c rest =>
      obtain ⟨done, hdone, hshared, hready⟩ := h
      have hcommute := free_runAll e done (fun f hf =>
        hatomic.before c e hother f (by rw [hdone]; exact List.mem_append_left rest hf)) t
      dsimp only at hshared
      rw [← hshared, hfree] at hcommute
      obtain ⟨t', ht', hshared'⟩ := Option.map_eq_some_iff.1 hcommute.symm
      exact ⟨t', ht', done, hdone, hshared'.symm, hatomic.ready c e t t' hother hready ht'⟩
    | after c rest =>
      obtain ⟨hrest, ht⟩ := h
      have hcommute := free_runAll e rest (fun f hf =>
        hatomic.after c e hother f (hrest.subset hf)) s
      dsimp only at ht
      rw [← ht, hfree] at hcommute
      exact ⟨runAll rest shared, hcommute, hrest, rfl⟩

/-- One statement is nothing or one whole section. -/
theorem settled_step [DecidableEq T] (hatomic : p.Atomic) {s s' : Fine S C} {t : S}
    {e : FineStep C E} (h : p.Settled s t) (hstep : p.step s e = some s') :
    p.Settled s' t ∨ ∃ c t', p.call t c = some t' ∧ p.Settled s' t' := by
  cases e with
  | enter c =>
    rw [step] at hstep
    split at hstep
    · next hcond =>
      rw [Bool.and_eq_true, Option.isNone_iff_eq_none] at hcond
      obtain ⟨hnone, hready⟩ := hcond
      cases hstep
      rw [Settled, hnone] at h
      exact Or.inl ⟨[], rfl, h, by rw [← h]; exact hready⟩
    · cases hstep
  | statement =>
    obtain ⟨held, hheld, rfl⟩ := Option.map_eq_some_iff.1 hstep
    have h : p.Settled ⟨s.shared, some held⟩ t := by
      rw [← hheld]
      exact h
    rcases settled_advance h with hsame | ⟨c, hready, hwhole⟩
    · exact Or.inl hsame
    · exact Or.inr ⟨.whole c, _, if_pos hready, hwhole⟩
  | free e =>
    rw [step] at hstep
    split at hstep
    · next hother =>
      obtain ⟨shared, hfree, rfl⟩ := Option.map_eq_some_iff.1 hstep
      obtain ⟨t', ht', hsettled⟩ := settled_free hatomic h hother hfree
      exact Or.inr ⟨.free e, t', ht', hsettled⟩
    · cases hstep

/-- Every run of statements is a run of whole sections. -/
theorem run_settled [DecidableEq T] (hatomic : p.Atomic) {s₀ : S} {steps : List (FineStep C E)}
    {s : Fine S C} (hrun : Runs.run p.step ⟨s₀, none⟩ steps = some s) :
    ∃ calls t, Runs.run p.call s₀ calls = some t ∧ p.Settled s t := by
  have hstart : p.Settled ⟨s₀, none⟩ s₀ := rfl
  refine Runs.invariant (fun s => ∃ calls t, Runs.run p.call s₀ calls = some t ∧ p.Settled s t)
    ⟨[], s₀, rfl, hstart⟩ ?_ (List.prefix_refl steps) hrun
  rintro - e s s' - - ⟨calls, t, hcalls, hsettled⟩ hstep
  rcases settled_step hatomic hsettled hstep with hsame | ⟨c, t', hcall, hsettled'⟩
  · exact ⟨calls, t, hcalls, hsame⟩
  · exact ⟨calls ++ [c], t', Runs.run_concat.2 ⟨t, hcalls, hcall⟩, hsettled'⟩

/-- Behind a run of statements with the lock free stands a run of whole sections
to the same state. -/
theorem calls_of_run [DecidableEq T] (hatomic : p.Atomic) {s₀ : S} {steps : List (FineStep C E)}
    {s : Fine S C} (hrun : Runs.run p.step ⟨s₀, none⟩ steps = some s) (hfree : s.held = none) :
    ∃ calls, Runs.run p.call s₀ calls = some s.shared := by
  obtain ⟨calls, t, hcalls, hsettled⟩ := run_settled hatomic hrun
  rw [Settled, hfree] at hsettled
  rw [show s.shared = t from hsettled]
  exact ⟨calls, hcalls⟩

end Program

end MinotaurRobot.Lib.Sections
