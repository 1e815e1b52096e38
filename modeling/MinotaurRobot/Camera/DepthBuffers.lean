import MinotaurRobot.Camera.Kinect
import MinotaurRobot.Lib.Sections

/-!
# The depth buffers between the driver and the commands

`depth_cb` runs in the thread of the driver and `swapDepth` in the thread of
the commands.  Both permute the three depth buffers under `depth_lock`, and the
commands go on to use `dbuffer` without the lock.

`depth_unshared` is about every order of whole calls, and
`depth_unshared_of_statements` about every order of the statements.  In between
`back` and `mid` may be equal, but `registered_ne_dbuffer` says that the driver
does not have the buffer of the commands at any statement.
-/

namespace MinotaurRobot.Camera

open Lib

/-! ## The two threads -/

inductive DepthThread where
  /-- The thread in `freenect_process_events`, which fills the registered buffer
  and calls `depth_cb`. -/
  | driver
  /-- The thread of the commands, which calls `IDS::swapDepth`. -/
  | command
  deriving DecidableEq, Repr

/-- Where the command thread stands in `swapDepth`. -/
inductive SwapPhase where
  | idle
  /-- `getDepthFrame` has swapped the buffers. -/
  | swapped
  /-- `getDepthFrame` has returned. -/
  | returned (frame : Fin 3)
  deriving DecidableEq, Repr

structure DepthState where
  kinect : Kinect
  /-- `depth_tmp` of `swapDepthBackBuffer`. -/
  backTmp : Fin 3
  /-- `depth_tmp` of `swapDepthFrontBuffer`. -/
  frontTmp : Fin 3
  /-- `depth_cb` has swapped the buffers and still has to count. -/
  counting : Bool
  phase : SwapPhase
  /-- `IDS::dbuffer`, not set before the first `swapDepth`. -/
  dbuffer : Option (Fin 3)

def DepthState.init : DepthState where
  kinect := Kinect.init
  backTmp := Buffers.init.back
  frontTmp := Buffers.init.front
  counting := false
  phase := .idle
  dbuffer := none

inductive DepthSection where
  | swapDepthBackBuffer
  | swapDepthFrontBuffer
  deriving DecidableEq, Repr

inductive DepthFree where
  /-- The driver completes a frame. -/
  | fill
  /-- `++depth_count`. -/
  | count
  /-- `return depth_front`. -/
  | ret
  /-- `dbuffer = getKinect()->getDepthFrame()`. -/
  | assign
  deriving DecidableEq, Repr

/-- An assignment to the depth buffers. -/
def DepthState.onDepth (f : Buffers → Buffers) (s : DepthState) : DepthState :=
  { s with kinect := { s.kinect with depth := f s.kinect.depth } }

/-- `depth_cb` and `swapDepth`.  The last assignment of a swap comes with the
place where its caller goes on. -/
def depthProgram : Sections.Program DepthThread DepthState DepthSection DepthFree where
  thread
    | .swapDepthBackBuffer => .driver
    | .swapDepthFrontBuffer => .command
  ready
    | .swapDepthBackBuffer, s => !s.counting
    | .swapDepthFrontBuffer, s => s.phase == .idle
  before
    | .swapDepthBackBuffer =>
      [fun s => { s with backTmp := s.kinect.depth.back },
        DepthState.onDepth fun b => { b with back := b.mid },
        DepthState.onDepth fun b => { b with registered := b.back }]
    | .swapDepthFrontBuffer =>
      [fun s => { s with frontTmp := s.kinect.depth.front },
        DepthState.onDepth fun b => { b with front := b.mid }]
  commit
    | .swapDepthBackBuffer, s =>
      { s.onDepth fun b => { b with mid := s.backTmp } with counting := true }
    | .swapDepthFrontBuffer, s =>
      { s.onDepth fun b => { b with mid := s.frontTmp } with phase := .swapped }
  after _ := []
  freeThread
    | .fill | .count => .driver
    | .ret | .assign => .command
  free
    | .fill, s => some (s.onDepth Buffers.fill)
    | .count, s =>
      if s.counting then
        some { s with
          kinect := { s.kinect with depthCount := s.kinect.depthCount + 1 }
          counting := false }
      else none
    | .ret, s =>
      match s.phase with
      | .swapped => some { s with phase := .returned s.kinect.depth.front }
      | _ => none
    | .assign, s =>
      match s.phase with
      | .returned frame => some { s with dbuffer := some frame, phase := .idle }
      | _ => none

/-! ## The functions of `kinect.cpp` -/

/-- The steps of one callback. -/
theorem run_depthCb {s : DepthState} (hready : s.counting = false) :
    (Runs.run depthProgram.call s [.whole .swapDepthBackBuffer, .free .count]).map (·.kinect) =
      some (depthCb s.kinect) := by
  rw [Runs.run, Sections.Program.call, if_pos (by simp [depthProgram, hready])]
  rfl

/-- The steps of one `swapDepth`. -/
theorem run_swapDepth {s : DepthState} (hready : s.phase = .idle) :
    (Runs.run depthProgram.call s
        [.whole .swapDepthFrontBuffer, .free .ret, .free .assign]).map
      (fun s => (s.kinect, s.dbuffer)) =
      some ((getDepthFrame s.kinect).1, some (getDepthFrame s.kinect).2) := by
  rw [Runs.run, Sections.Program.call, if_pos (by simp [depthProgram, hready])]
  rfl

/-! ## No buffer is shared -/

/-- The pointers are three different buffers, all that were allocated, the
driver has the back one, and the commands have the front one. -/
structure Unshared (s : DepthState) : Prop where
  distinct : s.kinect.depth.Distinct
  allocated : ∀ b, b ∈ [Buffers.init.back, Buffers.init.mid, Buffers.init.front] →
    b ∈ [s.kinect.depth.back, s.kinect.depth.mid, s.kinect.depth.front]
  dbuffer : s.phase = .idle → ∀ b ∈ s.dbuffer,
    b = s.kinect.depth.front ∧ b ≠ s.kinect.depth.registered

/-- What the calls keep: a frame on its way to `dbuffer` is the front one,
too. -/
structure Owned (s : DepthState) : Prop where
  distinct : s.kinect.depth.Distinct
  returned : ∀ frame, s.phase = .returned frame → frame = s.kinect.depth.front
  dbuffer : s.phase = .idle → ∀ b ∈ s.dbuffer, b = s.kinect.depth.front

theorem owned_init : Owned DepthState.init where
  distinct := distinct_init
  returned := by
    intro frame h
    cases h
  dbuffer := by
    intro _ b hb
    cases hb

theorem Owned.whole {s : DepthState} (h : Owned s) {c : DepthSection} :
    Owned (depthProgram.whole c s) := by
  cases c with
  | swapDepthBackBuffer => exact ⟨h.distinct.swapBack, h.returned, h.dbuffer⟩
  | swapDepthFrontBuffer =>
    refine ⟨h.distinct.swapFront, ?_, ?_⟩
    · intro frame hphase
      cases hphase
    · intro hphase
      cases hphase

theorem Owned.free {s s' : DepthState} (h : Owned s) {e : DepthFree}
    (hfree : depthProgram.free e s = some s') : Owned s' := by
  cases e with
  | fill =>
    cases hfree
    exact ⟨h.distinct.fill, h.returned, h.dbuffer⟩
  | count =>
    simp only [depthProgram] at hfree
    split at hfree
    · cases hfree
      exact ⟨h.distinct, h.returned, h.dbuffer⟩
    · cases hfree
  | ret =>
    simp only [depthProgram] at hfree
    split at hfree
    · cases hfree
      refine ⟨h.distinct, ?_, ?_⟩
      · intro frame hphase
        cases hphase
        rfl
      · intro hphase
        cases hphase
    · cases hfree
  | assign =>
    simp only [depthProgram] at hfree
    split at hfree
    · next frame hphase =>
      cases hfree
      refine ⟨h.distinct, ?_, ?_⟩
      · intro frame hphase
        cases hphase
      · intro _ b hb
        cases hb
        exact h.returned frame hphase
    · cases hfree

theorem Owned.call {s s' : DepthState} (h : Owned s) {c : Sections.Call DepthSection DepthFree}
    (hcall : depthProgram.call s c = some s') : Owned s' := by
  cases c with
  | whole c =>
    rw [Sections.Program.call] at hcall
    split at hcall
    · cases hcall
      exact h.whole
    · cases hcall
  | free e => exact h.free hcall

theorem Owned.unshared {s : DepthState} (h : Owned s) : Unshared s where
  distinct := h.distinct
  allocated b _ := h.distinct.mem b
  dbuffer := by
    intro hphase b hb
    have hfront := h.dbuffer hphase b hb
    refine ⟨hfront, ?_⟩
    rw [hfront, h.distinct.registered]
    exact h.distinct.back_ne_front.symm

theorem owned_of_calls (calls : List (Sections.Call DepthSection DepthFree)) (s : DepthState)
    (hrun : Runs.run depthProgram.call DepthState.init calls = some s) : Owned s :=
  Runs.invariant Owned owned_init (fun _ _ _ _ _ _ h hcall => h.call hcall)
    (List.prefix_refl calls) hrun

/-- Behind every order of callbacks and calls no buffer is shared. -/
theorem depth_unshared {calls : List (Sections.Call DepthSection DepthFree)} {s : DepthState}
    (hrun : Runs.run depthProgram.call DepthState.init calls = some s) : Unshared s :=
  (owned_of_calls calls s hrun).unshared

/-- A callback comes between the swap of a `swapDepth` and its return. -/
def callbackBetween : List (Sections.Call DepthSection DepthFree) :=
  [.free .fill, .whole .swapDepthBackBuffer, .free .count, .whole .swapDepthFrontBuffer,
    .free .fill, .whole .swapDepthBackBuffer, .free .count, .free .ret, .free .assign]

theorem depth_unshared_callback_between :
    ∃ s, Runs.run depthProgram.call DepthState.init callbackBetween = some s ∧ Unshared s := by
  obtain ⟨s, hrun⟩ : ∃ s, Runs.run depthProgram.call DepthState.init callbackBetween = some s :=
    ⟨_, rfl⟩
  exact ⟨s, hrun, depth_unshared hrun⟩

/-! ## Single statements -/

theorem depthProgram_atomic : depthProgram.Atomic where
  ready := by
    intro c e s s' hother hready hfree
    cases c with
    | swapDepthBackBuffer =>
      cases e with
      | fill | count => exact absurd rfl hother
      | ret | assign =>
        simp only [depthProgram] at hfree
        split at hfree
        · cases hfree
          exact hready
        · cases hfree
    | swapDepthFrontBuffer =>
      cases e with
      | fill =>
        cases hfree
        exact hready
      | count =>
        simp only [depthProgram] at hfree
        split at hfree
        · cases hfree
          exact hready
        · cases hfree
      | ret | assign => exact absurd rfl hother
  before := by
    intro c e hother f hf s
    rcases s with ⟨kinect, backTmp, frontTmp, counting, phase, dbuffer⟩
    cases c with
    | swapDepthBackBuffer =>
      simp only [depthProgram, List.mem_cons, List.not_mem_nil, or_false] at hf
      cases e with
      | fill | count => exact absurd rfl hother
      | ret | assign => rcases hf with rfl | rfl | rfl <;> cases phase <;> rfl
    | swapDepthFrontBuffer =>
      simp only [depthProgram, List.mem_cons, List.not_mem_nil, or_false] at hf
      cases e with
      | fill => rcases hf with rfl | rfl <;> rfl
      | count => rcases hf with rfl | rfl <;> cases counting <;> rfl
      | ret | assign => exact absurd rfl hother
  after := by
    intro c e _ f hf
    cases hf

/-- Behind every order of the statements no buffer is shared as soon as the
lock is free. -/
theorem depth_unshared_of_statements {steps : List (Sections.FineStep DepthSection DepthFree)}
    {s : Sections.Fine DepthState DepthSection}
    (hrun : Runs.run depthProgram.step ⟨DepthState.init, none⟩ steps = some s)
    (hfree : s.held = none) : Unshared s.shared := by
  obtain ⟨calls, hcalls⟩ := Sections.Program.calls_of_run depthProgram_atomic hrun hfree
  exact (owned_of_calls calls s.shared hcalls).unshared

/-- At every statement outside `swapDepth` the driver has another buffer than
the commands. -/
theorem registered_ne_dbuffer {steps : List (Sections.FineStep DepthSection DepthFree)}
    {s : Sections.Fine DepthState DepthSection}
    (hrun : Runs.run depthProgram.step ⟨DepthState.init, none⟩ steps = some s)
    (hphase : s.shared.phase = .idle)
    (hout : ∀ held ∈ s.held, held.owner ≠ .swapDepthFrontBuffer) :
    ∀ b ∈ s.shared.dbuffer, b ≠ s.shared.kinect.depth.registered := by
  obtain ⟨calls, t, hcalls, hsettled⟩ := Sections.Program.run_settled depthProgram_atomic hrun
  have howned := owned_of_calls calls t hcalls
  rcases s with ⟨shared, held⟩
  dsimp only at hphase hout ⊢
  cases held with
  | none =>
    cases hsettled
    exact fun b hb => (howned.unshared.dbuffer hphase b hb).2
  | some held =>
    cases held with
    | before c rest =>
      obtain ⟨done, hdone, hshared, -⟩ := hsettled
      cases c with
      | swapDepthBackBuffer =>
        have hpre : done ∈ (depthProgram.before .swapDepthBackBuffer).inits :=
          (List.mem_inits _ _).2 ⟨rest, hdone.symm⟩
        simp only [depthProgram, List.inits, List.map_cons, List.map_nil, List.mem_cons,
          List.not_mem_nil, or_false] at hpre
        dsimp only at hshared
        rw [hshared] at hphase ⊢
        -- only the last statement in front of the commit changes what the driver has
        rcases hpre with rfl | rfl | rfl | rfl
        · exact fun b hb => (howned.unshared.dbuffer hphase b hb).2
        · exact fun b hb => (howned.unshared.dbuffer hphase b hb).2
        · exact fun b hb => (howned.unshared.dbuffer hphase b hb).2
        · intro b hb
          rw [howned.dbuffer hphase b hb]
          exact howned.distinct.mid_ne_front.symm
      | swapDepthFrontBuffer => exact absurd rfl (hout _ rfl)
    | after c rest =>
      obtain ⟨hrest, rfl⟩ := hsettled
      cases List.suffix_nil.1 hrest
      exact fun b hb => (howned.unshared.dbuffer hphase b hb).2

/-- A `swapDepth`, and a callback that has exchanged two of the three pointers. -/
def callbackHalfway : List (Sections.FineStep DepthSection DepthFree) :=
  [.enter .swapDepthFrontBuffer, .statement, .statement, .statement, .statement, .free .ret,
    .free .assign, .free .fill, .enter .swapDepthBackBuffer, .statement, .statement]

example :
    ∃ s b, Runs.run depthProgram.step ⟨DepthState.init, none⟩ callbackHalfway = some s ∧
      s.shared.kinect.depth.back = s.shared.kinect.depth.mid ∧
      s.shared.dbuffer = some b ∧ b ≠ s.shared.kinect.depth.registered := by
  obtain ⟨s, hrun, hshared, hphase, hout, hdbuffer⟩ :
      ∃ s, Runs.run depthProgram.step ⟨DepthState.init, none⟩ callbackHalfway = some s ∧
        s.shared.kinect.depth.back = s.shared.kinect.depth.mid ∧ s.shared.phase = .idle ∧
        (∀ held ∈ s.held, held.owner ≠ .swapDepthFrontBuffer) ∧ s.shared.dbuffer = some 1 :=
    ⟨_, rfl, rfl, rfl, by decide, rfl⟩
  exact ⟨s, 1, hrun, hshared, hdbuffer, registered_ne_dbuffer hrun hphase hout 1 hdbuffer⟩

end MinotaurRobot.Camera
