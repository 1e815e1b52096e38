import MinotaurRobot.Lib.Runs
import MinotaurRobot.Mcu.Responses

/-!
# The wake-up of the transmitter

The main loop writes a byte to `U1TXREG` and then clears `READY_TO_SEND`.  The
UART raises one interrupt for the byte, and the interrupt sets the flag again.
If it comes between the two statements, then the flag is cleared behind it and
nothing sets it any more.

The statements around the flag are single steps here.  The other sections of
the loop neither read nor write the flag, so it does not matter where inside a
section the interrupt comes (`statement_u1tx`).
-/

namespace MinotaurRobot.Mcu

open Lib

/-! ## The statements -/

/-- The next statement, or section, of an iteration. -/
inductive TxPc where
  | sensors
  | print
  /-- `if (READY_TO_SEND == 1)`. -/
  | testReady
  /-- `if (BUFF_status(&TX_DATA_BUFFER) != BUFF_EMPTY)`. -/
  | testBuffer
  /-- `U1TXREG = BUFF_pop(&TX_DATA_BUFFER);`. -/
  | write
  /-- `READY_TO_SEND = 0;`. -/
  | clear
  | receive
  | assemble
  | i2cRequest
  | i2cService
  | handle
  deriving DecidableEq, Repr

structure Transmit where
  pc : TxPc
  mcu : State
  /-- The `U1TX` interrupts still to come. -/
  pending : ℕ

/-- The start of the first iteration. -/
def Transmit.init : Transmit := ⟨.sensors, State.init, 0⟩

/-- One statement.  `none` while `printString` waits. -/
def Transmit.statement (hw : Hw) (x : Transmit) : Option Transmit :=
  match x.pc with
  | .sensors => some { x with pc := .print, mcu := readSensors hw x.mcu }
  | .print => (debugPrint x.mcu).map fun mcu => { x with pc := .testReady, mcu := mcu }
  | .testReady => some { x with pc := if x.mcu.readyToSend then .testBuffer else .receive }
  | .testBuffer =>
    some { x with pc := if buffStatus x.mcu.txDataBuffer != .empty then .write else .receive }
  | .write =>
    some
      { pc := .clear
        mcu := { x.mcu with txDataBuffer := (buffPop x.mcu.txDataBuffer).2 }
        pending := x.pending + 1 }
  | .clear => some { x with pc := .receive, mcu := { x.mcu with readyToSend := false } }
  | .receive => some { x with pc := .assemble, mcu := (uartReceive hw x.mcu).1 }
  | .assemble => some { x with pc := .i2cRequest, mcu := (Mcu.assemble x.mcu).1 }
  | .i2cRequest => some { x with pc := .i2cService, mcu := (Mcu.i2cRequest x.mcu).1 }
  | .i2cService => some { x with pc := .handle, mcu := (Mcu.i2cService hw x.mcu).1 }
  | .handle => some { x with pc := .sensors, mcu := handlePacket x.mcu }

inductive TxEvent where
  | statement (hw : Hw)
  | interrupt (i : Interrupt)
  deriving DecidableEq, Repr

/-- One step.  The UART raises one interrupt for each byte written, at any
moment after the write. -/
def Transmit.step (x : Transmit) : TxEvent → Option Transmit
  | .statement hw => x.statement hw
  | .interrupt .u1tx =>
    if 0 < x.pending then
      some { x with mcu := x.mcu.interrupt .u1tx, pending := x.pending - 1 }
    else none
  | .interrupt i => some { x with mcu := x.mcu.interrupt i }

def Transmit.run (events : List TxEvent) : Option Transmit :=
  Runs.run Transmit.step Transmit.init events

/-- At the start of an iteration there are bytes to send, `READY_TO_SEND` is
clear, and no interrupt is to come. -/
def Transmit.Stalled (x : Transmit) : Prop :=
  x.pc = .sensors ∧ x.mcu.txDataBuffer.contents ≠ [] ∧ x.mcu.readyToSend = false ∧ x.pending = 0

/-- No state of the run is stalled. -/
def NeverStalls (events : List TxEvent) : Prop :=
  ∀ pre x, pre <+: events → Transmit.run pre = some x → ¬x.Stalled

/-- No interrupt of the transmitter comes between the write and the clearing of
the flag. -/
def NoneEarly (events : List TxEvent) : Prop :=
  ∀ pre x, pre ++ [.interrupt .u1tx] <+: events → Transmit.run pre = some x → x.pc ≠ .clear

/-- When an interrupt of the transmitter came between the write and the
clearing of the flag, there is nothing to send at the start of all later
iterations. -/
def NoneLost (events : List TxEvent) : Prop :=
  ∀ pre mid x y, pre ++ .interrupt .u1tx :: mid <+: events → Transmit.run pre = some x →
    x.pc = .clear → Transmit.run (pre ++ .interrupt .u1tx :: mid) = some y → y.pc = .sensors →
    y.mcu.txDataBuffer.contents = []

/-! ## The flag in the other sections -/

/-- The state with another `READY_TO_SEND`. -/
def State.withReady (s : State) (ready : Bool) : State := { s with readyToSend := ready }

-- the sections are compared without running the pushes
attribute [local irreducible] pushAll

variable (s : State) (ready : Bool)

theorem ready_ite {c : Prop} [Decidable c] {a b a' b' : State} (ha : a' = a.withReady ready)
    (hb : b' = b.withReady ready) :
    (if c then a' else b') = (if c then a else b).withReady ready := by
  by_cases h : c
  · rw [if_pos h, if_pos h, ha]
  · rw [if_neg h, if_neg h, hb]

theorem ready_ite_fst {α : Type} {c : Prop} [Decidable c] {a b a' b' : State × α}
    (ha : a'.1 = a.1.withReady ready) (hb : b'.1 = b.1.withReady ready) :
    (if c then a' else b').1 = (if c then a else b).1.withReady ready := by
  by_cases h : c
  · rw [if_pos h, if_pos h, ha]
  · rw [if_neg h, if_neg h, hb]

theorem ready_readSensors (hw : Hw) :
    readSensors hw (s.withReady ready) = (readSensors hw s).withReady ready :=
  ready_ite ready rfl rfl

theorem ready_debugPrint :
    debugPrint (s.withReady ready) = (debugPrint s).map fun s => s.withReady ready := by
  unfold debugPrint
  by_cases hprint : s.print
  · rw [if_pos hprint, if_pos (show (s.withReady ready).print = true from hprint),
      Option.map_map]
    rfl
  · rw [if_neg hprint, if_neg (show ¬(s.withReady ready).print = true from hprint)]
    rfl

theorem ready_uartReceive (hw : Hw) :
    (uartReceive hw (s.withReady ready)).1 = (uartReceive hw s).1.withReady ready :=
  ready_ite_fst ready rfl rfl

theorem ready_assemble : (assemble (s.withReady ready)).1 = (assemble s).1.withReady ready :=
  ready_ite_fst ready rfl rfl

theorem ready_i2cRequest :
    (i2cRequest (s.withReady ready)).1 = (i2cRequest s).1.withReady ready :=
  ready_ite_fst ready rfl rfl

theorem ready_i2cService (hw : Hw) :
    (i2cService hw (s.withReady ready)).1 = (i2cService hw s).1.withReady ready := by
  unfold i2cService
  repeat' apply ready_ite_fst
  all_goals rfl

theorem ready_processCmd : processCmd (s.withReady ready) = (processCmd s).withReady ready := by
  by_cases h : s.controlpacket.bytesRecieved = 5
  · have h' : (s.withReady ready).controlpacket.bytesRecieved = 5 := h
    rw [processCmd_eq h, processCmd_eq h', getSensorData_eq, getSensorData_eq]
    repeat' apply ready_ite
    all_goals rfl
  · unfold processCmd
    rw [if_neg h, if_neg (show ¬(s.withReady ready).controlpacket.bytesRecieved = 5 from h)]

theorem ready_motorCmd : motorCmd (s.withReady ready) = (motorCmd s).withReady ready := by
  unfold motorCmd
  simp only [respondIfRoom_eq]
  exact ready_ite ready rfl rfl

theorem ready_enableSensors :
    enableSensors (s.withReady ready) = (enableSensors s).withReady ready :=
  ready_ite ready rfl rfl

theorem ready_autonomousMode :
    autonomousMode (s.withReady ready) = (autonomousMode s).withReady ready :=
  ready_ite ready (ready_ite ready rfl rfl) rfl

theorem ready_evadeIf (tripped : Bool) (left right : Wheel) :
    evadeIf tripped left right (s.withReady ready) =
      (evadeIf tripped left right s).withReady ready :=
  ready_ite ready rfl rfl

theorem ready_evadeSides (on : Bool) (v : Sensors) :
    evadeSides on v (s.withReady ready) = (evadeSides on v s).withReady ready :=
  ready_ite ready (ready_evadeIf ..) (ready_ite ready (ready_evadeIf ..) (ready_evadeIf ..))

theorem ready_followUser : followUser (s.withReady ready) = (followUser s).withReady ready :=
  ready_ite ready rfl rfl

theorem ready_avoidObstacles :
    avoidObstacles (s.withReady ready) = (avoidObstacles s).withReady ready := by
  unfold avoidObstacles
  dsimp only
  rw [← ready_followUser, ← ready_evadeSides, ← ready_evadeIf, ← ready_evadeIf, ← ready_evadeIf]
  rfl

theorem ready_endReset : endReset (s.withReady ready) = (endReset s).withReady ready :=
  ready_ite ready rfl rfl

theorem ready_handlePacket :
    handlePacket (s.withReady ready) = (handlePacket s).withReady ready := by
  have hdrive : ∀ s : State, driveMotors (s.withReady ready) = (driveMotors s).withReady ready :=
    fun s => rfl
  unfold handlePacket afterProcess
  rw [ready_processCmd, ready_motorCmd, ready_enableSensors, ready_autonomousMode,
    ready_avoidObstacles, hdrive, ready_endReset]

/-! ## What a step does -/

def Transmit.withReady (x : Transmit) (ready : Bool) : Transmit :=
  { x with mcu := x.mcu.withReady ready }

/-- Only two statements have to do with the flag. -/
theorem statement_withReady {x : Transmit} (hw : Hw) (hready : x.pc ≠ .testReady)
    (hclear : x.pc ≠ .clear) (ready : Bool) :
    (x.withReady ready).statement hw = (x.statement hw).map fun x => x.withReady ready := by
  obtain ⟨pc, mcu, pending⟩ := x
  unfold Transmit.withReady Transmit.statement
  cases pc with
  | sensors =>
    dsimp only
    rw [ready_readSensors, Option.map_some]
  | print =>
    dsimp only
    rw [ready_debugPrint, Option.map_map, Option.map_map]
    rfl
  | testReady => exact absurd rfl hready
  | testBuffer => rfl
  | write => rfl
  | clear => exact absurd rfl hclear
  | receive =>
    dsimp only
    rw [ready_uartReceive, Option.map_some]
  | assemble =>
    dsimp only
    rw [ready_assemble, Option.map_some]
  | i2cRequest =>
    dsimp only
    rw [ready_i2cRequest, Option.map_some]
  | i2cService =>
    dsimp only
    rw [ready_i2cService, Option.map_some]
  | handle =>
    dsimp only
    rw [ready_handlePacket, Option.map_some]

/-- An interrupt of the transmitter in front of a section can as well come
behind it. -/
theorem statement_u1tx {x : Transmit} (hw : Hw) (hready : x.pc ≠ .testReady)
    (hclear : x.pc ≠ .clear) :
    ({ x with mcu := x.mcu.interrupt .u1tx } : Transmit).statement hw =
      (x.statement hw).map fun x => { x with mcu := x.mcu.interrupt .u1tx } :=
  statement_withReady hw hready hclear true

/-- The flag, the interrupts to come and the next statement behind a
statement. -/
inductive Stated (x : Transmit) : Transmit → Prop where
  | ready {x' : Transmit} (hpc : x.pc = .testReady) (hready : x.mcu.readyToSend = true)
      (hx : x' = { x with pc := .testBuffer }) : Stated x x'
  | written {x' : Transmit} (hpc : x.pc = .write) (hpc' : x'.pc = .clear)
      (hready : x'.mcu.readyToSend = x.mcu.readyToSend) (hpending : x'.pending = x.pending + 1) :
      Stated x x'
  | filled {x' : Transmit} (hpc : x.pc = .testBuffer) (hpc' : x'.pc = .write)
      (hready : x'.mcu.readyToSend = x.mcu.readyToSend) (hpending : x'.pending = x.pending) :
      Stated x x'
  | cleared {x' : Transmit} (hpc : x.pc = .clear) (hpc' : x'.pc = .receive)
      (hready : x'.mcu.readyToSend = false) (hpending : x'.pending = x.pending) : Stated x x'
  | other {x' : Transmit} (hpc : x.pc ≠ .clear) (hpc' : x'.pc ∉ [.testBuffer, .write, .clear])
      (hready : x'.mcu.readyToSend = x.mcu.readyToSend) (hpending : x'.pending = x.pending) :
      Stated x x'

theorem statement_keeps {x x' : Transmit} {hw : Hw} (hready : x.pc ≠ .testReady)
    (hclear : x.pc ≠ .clear) (h : x.statement hw = some x') :
    x'.mcu.readyToSend = x.mcu.readyToSend := by
  have hsame := statement_withReady hw hready hclear x.mcu.readyToSend
  rw [show x.withReady x.mcu.readyToSend = x from rfl, h, Option.map_some,
    Option.some.injEq] at hsame
  rw [hsame]
  rfl

theorem statement_cases {x x' : Transmit} {hw : Hw} (h : x.statement hw = some x') :
    Stated x x' := by
  have hkeeps := fun hready hclear => statement_keeps (x := x) hready hclear h
  unfold Transmit.statement at h
  cases hpc : x.pc with
  | testReady =>
    rw [hpc] at h
    cases h
    cases hready : x.mcu.readyToSend with
    | true => exact .ready hpc hready (by rw [if_pos rfl])
    | false => exact .other (by simp [hpc]) (by simp) rfl rfl
  | testBuffer =>
    rw [hpc] at h
    cases h
    by_cases hempty : (buffStatus x.mcu.txDataBuffer != .empty) = true
    · exact .filled hpc (if_pos hempty) rfl rfl
    · exact .other (by simp [hpc]) (by simp [hempty]) rfl rfl
  | write =>
    rw [hpc] at h
    cases h
    exact .written hpc rfl rfl rfl
  | clear =>
    rw [hpc] at h
    cases h
    exact .cleared hpc rfl rfl rfl
  | print =>
    have hready := hkeeps (by simp [hpc]) (by simp [hpc])
    rw [hpc] at h
    obtain ⟨mcu, -, rfl⟩ := Option.map_eq_some_iff.1 h
    exact .other (by simp [hpc]) (by simp) hready rfl
  | sensors | receive | assemble | i2cRequest | i2cService | handle =>
    have hready := hkeeps (by simp [hpc]) (by simp [hpc])
    rw [hpc] at h
    cases h
    exact .other (by simp [hpc]) (by simp) hready rfl

/-! ## Runs -/

/-- No interrupt was lost: the flag is clear exactly while an interrupt is to
come. -/
structure Transmit.Live (x : Transmit) : Prop where
  written : x.pc = .clear → x.mcu.readyToSend = true ∧ x.pending = 1
  idle : x.pc ≠ .clear → x.pending = if x.mcu.readyToSend then 0 else 1
  tested : x.pc = .testBuffer ∨ x.pc = .write → x.mcu.readyToSend = true

/-- An interrupt was lost: nothing sets the flag any more. -/
structure Transmit.Dead (x : Transmit) : Prop where
  pending : x.pending = 0
  cleared : x.pc ≠ .clear → x.mcu.readyToSend = false
  tested : x.pc ≠ .testBuffer ∧ x.pc ≠ .write

theorem Transmit.Live.statement {x x' : Transmit} (h : x.Live) (hstep : Stated x x') :
    x'.Live := by
  cases hstep with
  | ready hpc hready hx =>
    subst hx
    refine ⟨nofun, fun _ => ?_, fun _ => hready⟩
    exact h.idle (by simp [hpc])
  | written hpc hpc' hready hpending =>
    have hset := h.tested (.inr hpc)
    have hzero := h.idle (by simp [hpc])
    rw [if_pos hset] at hzero
    refine ⟨fun _ => ⟨hready.trans hset, by omega⟩, fun hne => absurd hpc' hne, ?_⟩
    rw [hpc']
    exact nofun
  | filled hpc hpc' hready hpending =>
    have hset := h.tested (.inl hpc)
    refine ⟨fun hclear => by simp [hpc'] at hclear, fun _ => ?_, fun _ => hready.trans hset⟩
    rw [hpending, hready]
    exact h.idle (by simp [hpc])
  | cleared hpc hpc' hready hpending =>
    obtain ⟨-, hone⟩ := h.written hpc
    refine ⟨fun hclear => by simp [hpc'] at hclear, fun _ => ?_, fun htest => by simp [hpc'] at htest⟩
    rw [hready, if_neg Bool.false_ne_true]
    omega
  | other hpc hpc' hready hpending =>
    simp only [List.mem_cons, List.not_mem_nil, or_false, not_or] at hpc'
    refine ⟨fun hclear => absurd hclear hpc'.2.2, fun _ => ?_, fun htest => ?_⟩
    · rw [hpending, hready]
      exact h.idle hpc
    · rcases htest with htest | htest
      · exact absurd htest hpc'.1
      · exact absurd htest hpc'.2.1

theorem Transmit.Dead.statement {x x' : Transmit} (h : x.Dead) (hstep : Stated x x') :
    x'.Dead := by
  cases hstep with
  | ready hpc hready hx =>
    have hclear := h.cleared (by simp [hpc])
    rw [hready] at hclear
    cases hclear
  | written hpc hpc' hready hpending => exact absurd hpc h.tested.2
  | filled hpc hpc' hready hpending => exact absurd hpc h.tested.1
  | cleared hpc hpc' hready hpending =>
    exact ⟨hpending.trans h.pending, fun _ => hready, by simp [hpc']⟩
  | other hpc hpc' hready hpending =>
    simp only [List.mem_cons, List.not_mem_nil, or_false, not_or] at hpc'
    exact ⟨hpending.trans h.pending, fun _ => hready.trans (h.cleared hpc), hpc'.1, hpc'.2.1⟩

theorem readyToSend_interrupt (s : State) {i : Interrupt} (h : i ≠ .u1tx) :
    (s.interrupt i).readyToSend = s.readyToSend := by
  cases i with
  | u1tx => exact absurd rfl h
  | u1rx perr ferr =>
    unfold State.interrupt
    dsimp only
    split <;> rfl
  | mi2c1 | adc1 | t4 | t3 => rfl

/-- The two kinds of interrupts. -/
theorem interrupt_cases {x x' : Transmit} {i : Interrupt}
    (h : x.step (.interrupt i) = some x') :
    (i = .u1tx ∧ 0 < x.pending ∧ x'.pc = x.pc ∧ x'.mcu.readyToSend = true ∧
        x'.pending = x.pending - 1) ∨
      (i ≠ .u1tx ∧ x'.pc = x.pc ∧ x'.mcu.readyToSend = x.mcu.readyToSend ∧
        x'.pending = x.pending) := by
  by_cases hi : i = .u1tx
  · subst hi
    unfold Transmit.step at h
    dsimp only at h
    split at h
    · next hpending =>
      cases h
      exact .inl ⟨rfl, hpending, rfl, rfl, rfl⟩
    · cases h
  · have hstep : x.step (.interrupt i) = some { x with mcu := x.mcu.interrupt i } := by
      cases i <;> first | rfl | exact absurd rfl hi
    rw [hstep] at h
    cases h
    exact .inr ⟨hi, rfl, readyToSend_interrupt x.mcu hi, rfl⟩

/-- A step keeps every interrupt, unless it is the one that comes between the
write and the clearing of the flag. -/
theorem Transmit.Live.step {x x' : Transmit} {e : TxEvent} (h : x.Live)
    (hstep : x.step e = some x') :
    if e = .interrupt .u1tx ∧ x.pc = .clear then x'.Dead else x'.Live := by
  cases e with
  | statement hw =>
    rw [if_neg (by simp)]
    exact h.statement (statement_cases hstep)
  | interrupt i =>
    rcases interrupt_cases hstep with ⟨rfl, hpos, hpc, hready, hpending⟩ | ⟨hi, hpc, hready, hpending⟩
    · by_cases hclear : x.pc = .clear
      · obtain ⟨-, hone⟩ := h.written hclear
        rw [if_pos ⟨rfl, hclear⟩]
        exact ⟨by omega, fun hne => absurd (hpc.trans hclear) hne, by simp [hpc, hclear]⟩
      · rw [if_neg fun hboth => hclear hboth.2]
        have hidle := h.idle hclear
        refine ⟨fun hclear' => absurd (hpc.symm.trans hclear') hclear, fun _ => ?_, fun _ => hready⟩
        rw [hready, if_pos rfl, hpending]
        split at hidle <;> omega
    · rw [if_neg fun hboth => hi (by simpa using hboth.1)]
      constructor
      · rw [hpc, hready, hpending]
        exact h.written
      · rw [hpc, hready, hpending]
        exact h.idle
      · rw [hpc, hready]
        exact h.tested

theorem Transmit.Dead.step {x x' : Transmit} {e : TxEvent} (h : x.Dead)
    (hstep : x.step e = some x') : x'.Dead := by
  cases e with
  | statement hw => exact h.statement (statement_cases hstep)
  | interrupt i =>
    rcases interrupt_cases hstep with ⟨rfl, hpos, -⟩ | ⟨hi, hpc, hready, hpending⟩
    · have := h.pending
      omega
    · constructor
      · rw [hpending]
        exact h.pending
      · rw [hpc, hready]
        exact h.cleared
      · rw [hpc]
        exact h.tested

theorem live_init : Transmit.init.Live := ⟨nofun, fun _ => rfl, fun _ => rfl⟩

/-- In every state of a run no interrupt was lost, or there was a moment when
one was. -/
theorem run_cases {events : List TxEvent} {x : Transmit} (h : Transmit.run events = some x) :
    x.Live ∨ x.Dead ∧ ∃ pre mid x₀, events = pre ++ .interrupt .u1tx :: mid ∧
      Transmit.run pre = some x₀ ∧ x₀.pc = .clear := by
  unfold Transmit.run at h
  induction events using List.reverseRecOn generalizing x with
  | nil =>
    cases h
    exact .inl live_init
  | append_singleton events e ih =>
    obtain ⟨x₁, hfront, hlast⟩ := Runs.run_concat.1 h
    rcases ih hfront with hlive | ⟨hdead, pre, mid, x₀, rfl, hrun, hclear⟩
    · have hstep := hlive.step hlast
      split at hstep
      · next hlost => exact .inr ⟨hstep, events, [], x₁, by rw [hlost.1], hfront, hlost.2⟩
      · exact .inl hstep
    · exact .inr ⟨hdead.step hlast, pre, mid ++ [e], x₀, by simp, hrun, hclear⟩

/-- Behind a lost interrupt the flag stays clear. -/
theorem dead_of_lost {pre mid : List TxEvent} {x y : Transmit} (hpre : Transmit.run pre = some x)
    (hclear : x.pc = .clear) (h : Transmit.run (pre ++ .interrupt .u1tx :: mid) = some y) :
    y.Dead := by
  unfold Transmit.run at h hpre
  rw [Runs.run_append, hpre, Option.bind_some] at h
  obtain ⟨x₁, hlost, hmid⟩ := Option.bind_eq_some_iff.1 h
  have hdead : x₁.Dead := by
    rcases run_cases hpre with hlive | ⟨hdead, -⟩
    · have hstep := hlive.step hlost
      rwa [if_pos ⟨rfl, hclear⟩] at hstep
    · exact hdead.step hlost
  exact Runs.invariant Transmit.Dead hdead (fun _ _ _ _ _ _ hdead hstep => hdead.step hstep)
    (List.prefix_refl mid) hmid

theorem noneLost_of_noneEarly {events : List TxEvent} (h : NoneEarly events) :
    NoneLost events := by
  intro pre mid x y hpre hrun hclear
  rw [← List.singleton_append, ← List.append_assoc] at hpre
  exact absurd hclear (h pre x ((List.prefix_append _ mid).trans hpre) hrun)

/-- No state of a run is stalled if no interrupt of the transmitter comes
between the write and the clearing of the flag.  And it is exactly so if behind
every interrupt that does there is nothing more to send. -/
theorem never_stalls_iff (events : List TxEvent) :
    (NoneEarly events → NeverStalls events) ∧ (NeverStalls events ↔ NoneLost events) := by
  have hiff : NeverStalls events ↔ NoneLost events := by
    constructor
    · intro hall pre mid x y hpre hrun hclear hy hpc
      by_contra hsend
      have hdead := dead_of_lost hrun hclear hy
      exact hall _ y hpre hy ⟨hpc, hsend, hdead.cleared (by simp [hpc]), hdead.pending⟩
    · rintro hnone pre x hpre hrun ⟨hpc, hsend, hready, hpending⟩
      rcases run_cases hrun with hlive | ⟨-, pre', mid, x₀, rfl, hrun', hclear⟩
      · have hidle := hlive.idle (by simp [hpc])
        rw [hready, if_neg Bool.false_ne_true] at hidle
        omega
      · exact hsend (hnone pre' mid x₀ x hpre hrun' hclear hrun hpc)
  exact ⟨fun hearly => hiff.2 (noneLost_of_noneEarly hearly), hiff⟩

/-- A byte comes in, and the interrupt for its echo comes behind the clearing of
the flag. -/
def promptWakeup : List TxEvent :=
  let statements (n : ℕ) : List TxEvent := List.replicate n (.statement ⟨0, 0, 0, 0, 0, 0x41, 0⟩)
  .interrupt (.u1rx false false) :: statements 15 ++ .interrupt .u1tx :: statements 9

/-- The echo is sent, and the flag is set again. -/
theorem never_stalls_prompt :
    (Transmit.run (promptWakeup.take 16)).map (fun x => (x.pending, x.mcu.readyToSend)) =
        some (1, false) ∧
      (Transmit.run promptWakeup).map (fun x => (x.mcu.txDataBuffer.contents, x.mcu.readyToSend)) =
        some ([], true) ∧
      NeverStalls promptWakeup := by
  refine ⟨by decide, by decide, (never_stalls_iff promptWakeup).1 ?_⟩
  intro pre x hpre hrun
  have hchecked : Runs.checked Transmit.step
      (fun x e => e != .interrupt .u1tx || x.pc != .clear) Transmit.init promptWakeup = true := by
    decide
  have hstep := Runs.of_checked hchecked hpre hrun
  simpa using hstep

/-! ## Whole iterations -/

/-- The statements around the flag are `uartSend`. -/
theorem uartSend_statements (hw : Hw) (s : State) (pending : ℕ) :
    ∃ n, Runs.run Transmit.step ⟨.testReady, s, pending⟩ (List.replicate n (.statement hw)) =
      some ⟨.receive, (uartSend s).1, pending + (uartSend s).2.toList.length⟩ := by
  unfold uartSend
  by_cases hready : s.readyToSend = true
  · have htest : Transmit.step ⟨.testReady, s, pending⟩ (.statement hw) =
        some ⟨.testBuffer, s, pending⟩ := by
      show some (Transmit.mk (if s.readyToSend = true then _ else _) s pending) = _
      rw [if_pos hready]
    by_cases hempty : (buffStatus s.txDataBuffer != .empty) = true
    · have hfilled : Transmit.step ⟨.testBuffer, s, pending⟩ (.statement hw) =
          some ⟨.write, s, pending⟩ := by
        show some (Transmit.mk (if (buffStatus s.txDataBuffer != .empty) = true then _ else _) s
          pending) = _
        rw [if_pos hempty]
      refine ⟨4, ?_⟩
      rw [hready, Bool.true_and, if_pos hempty]
      simp only [List.replicate, Runs.run, htest, hfilled, Option.bind_some]
      rfl
    · have hnone : Transmit.step ⟨.testBuffer, s, pending⟩ (.statement hw) =
          some ⟨.receive, s, pending⟩ := by
        show some (Transmit.mk (if (buffStatus s.txDataBuffer != .empty) = true then _ else _) s
          pending) = _
        rw [if_neg hempty]
      refine ⟨2, ?_⟩
      rw [hready, Bool.true_and, if_neg hempty]
      simp only [List.replicate, Runs.run, htest, hnone, Option.bind_some]
      rfl
  · have htest : Transmit.step ⟨.testReady, s, pending⟩ (.statement hw) =
        some ⟨.receive, s, pending⟩ := by
      show some (Transmit.mk (if s.readyToSend = true then _ else _) s pending) = _
      rw [if_neg hready]
    refine ⟨1, ?_⟩
    rw [Bool.not_eq_true] at hready
    rw [hready, Bool.false_and, if_neg Bool.false_ne_true]
    simp only [List.replicate, Runs.run, htest, Option.bind_some]
    rfl

/-- The statements without an interrupt are an iteration of the main loop. -/
theorem iterate_statements {hw : Hw} {s s' : State} {t : Trace} (h : iterate hw s = some (s', t))
    (pending : ℕ) :
    ∃ n, Runs.run Transmit.step ⟨.sensors, s, pending⟩ (List.replicate n (.statement hw)) =
      some ⟨.sensors, s', pending + t.sent.toList.length⟩ := by
  simp only [iterate, Option.bind_eq_bind, Option.bind_eq_some_iff, Option.pure_def,
    Option.some.injEq, Prod.mk.injEq] at h
  obtain ⟨s₁, hprint, rfl, rfl⟩ := h
  have hfront : Runs.run Transmit.step ⟨.sensors, s, pending⟩ (List.replicate 2 (.statement hw)) =
      some ⟨.testReady, s₁, pending⟩ := by
    have hstep : Transmit.step ⟨.print, readSensors hw s, pending⟩ (.statement hw) =
        some ⟨.testReady, s₁, pending⟩ := by
      show (debugPrint (readSensors hw s)).map _ = _
      rw [hprint, Option.map_some]
    show (Transmit.step ⟨.print, readSensors hw s, pending⟩ (.statement hw)).bind _ = _
    rw [hstep]
    rfl
  obtain ⟨n, hsend⟩ := uartSend_statements hw s₁ pending
  refine ⟨2 + n + 5, ?_⟩
  rw [List.replicate_add, List.replicate_add, Runs.run_append, Runs.run_append, hfront,
    Option.bind_some, hsend, Option.bind_some]
  rfl

/-- A byte comes in during each of two iterations.  The interrupt for the first
echo comes before the flag is cleared. -/
def lostWakeup : List TxEvent :=
  let statements (n : ℕ) : List TxEvent := List.replicate n (.statement ⟨0, 0, 0, 0, 0, 0x41, 0⟩)
  let received : List TxEvent := [.interrupt (.u1rx false false)]
  let echoed : List TxEvent := [.interrupt .u1tx]
  received ++ statements 9 ++ received ++ statements 5 ++ echoed ++ statements 6

theorem never_stalls_lost :
    (Transmit.run lostWakeup).map (fun x =>
        (x.pc, x.mcu.txDataBuffer.contents, x.mcu.readyToSend, x.pending)) =
        some (.sensors, [0x41], false, 0) ∧ ¬NeverStalls lostWakeup := by
  have hlast : (Transmit.run lostWakeup).map (fun x =>
      (x.pc, x.mcu.txDataBuffer.contents, x.mcu.readyToSend, x.pending)) =
      some (.sensors, [0x41], false, 0) := by decide
  refine ⟨hlast, ?_⟩
  intro hall
  obtain ⟨x, hrun, hx⟩ := Option.map_eq_some_iff.1 hlast
  rw [Prod.mk.injEq, Prod.mk.injEq, Prod.mk.injEq] at hx
  obtain ⟨hpc, hsend, hready, hpending⟩ := hx
  exact hall _ x (List.prefix_refl _) hrun ⟨hpc, by simp [hsend], hready, hpending⟩

end MinotaurRobot.Mcu
