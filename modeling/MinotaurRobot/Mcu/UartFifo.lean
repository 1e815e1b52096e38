import MinotaurRobot.Lib.Runs
import MinotaurRobot.Mcu.Inputs

/-!
# The receive FIFO of the UART

The UART keeps received bytes in a FIFO and raises one interrupt for each.
`U1RXREG` reads the oldest byte and takes it out.  The interrupt routine keeps
no count: it sets `READY_TO_REC`, and returns early on a parity or framing
error, with the byte still in the FIFO.  An iteration reads one byte at most.

`noneStranded_iff` gives the runs in which no byte is left behind.
-/

namespace MinotaurRobot.Mcu

/-! ## The UART in front of the microcontroller -/

structure Uart where
  mcu : State
  fifo : List UInt8

def Uart.init : Uart := ⟨State.init, []⟩

/-- A byte that arrives, with the error flags of its interrupt. -/
structure Arrival where
  byte : UInt8
  perr : Bool
  ferr : Bool
  deriving DecidableEq, Repr

/-- The interrupt routine takes notice of the byte. -/
def Arrival.clean (a : Arrival) : Bool := !(a.perr || a.ferr)

def Interrupt.isReceive : Interrupt → Bool
  | .u1rx _ _ => true
  | _ => false

/-- The receive interrupt comes with a byte, and all others come at any
time. -/
inductive UartEvent where
  | arrive (a : Arrival)
  | other (i : { i : Interrupt // i.isReceive = false })
  | iterate (hw : Hw)

/-- One step.  Returns the bytes that were read. -/
def Uart.step (u : Uart) : UartEvent → Option (Uart × List UInt8)
  | .arrive a => some (⟨u.mcu.interrupt (.u1rx a.perr a.ferr), u.fifo ++ [a.byte]⟩, [])
  | .other i => some (⟨u.mcu.interrupt i.val, u.fifo⟩, [])
  | .iterate hw => do
    let (mcu, t) ← Mcu.iterate { hw with u1rxreg := u.fifo.headD hw.u1rxreg } u.mcu
    let bytes := t.received.toList
    return (⟨mcu, u.fifo.drop bytes.length⟩, bytes)

def Uart.run (u : Uart) (events : List UartEvent) : Option Uart :=
  Lib.Runs.run (fun u event => (u.step event).map Prod.fst) u events

/-- The bytes that have arrived since the last iteration. -/
def arrived (events : List UartEvent) : List Arrival :=
  events.foldl (fun arrivals event =>
    match event with
    | .arrive a => arrivals ++ [a]
    | .other _ => arrivals
    | .iterate _ => []) []

/-- Every iteration that leaves `READY_TO_REC` clear leaves the FIFO empty,
and it has read the bytes that arrived since the iteration before it. -/
def NoneStranded (events : List UartEvent) : Prop :=
  ∀ pre hw u u' bytes, pre ++ [.iterate hw] <+: events → Uart.init.run pre = some u →
    u.step (.iterate hw) = some (u', bytes) → u'.mcu.readyToRec = false →
    u'.fifo = [] ∧ bytes = (arrived pre).map Arrival.byte

/-- At most one byte, and that without an error. -/
def Arrival.FewEnough (arrivals : List Arrival) : Prop :=
  arrivals = [] ∨ ∃ a, arrivals = [a] ∧ a.clean = true

/-- At most one byte arrives between two iterations, without an error. -/
def Paced (events : List UartEvent) : Prop :=
  ∀ pre hw, pre ++ [.iterate hw] <+: events → Arrival.FewEnough (arrived pre)

/-! ## Steps -/

theorem run_concat {u u'' : Uart} {events : List UartEvent} {event : UartEvent} :
    u.run (events ++ [event]) = some u'' ↔
      ∃ u' bytes, u.run events = some u' ∧ u'.step event = some (u'', bytes) := by
  unfold Uart.run
  rw [Lib.Runs.run_concat]
  simp

@[simp] theorem arrived_arrive (events : List UartEvent) (a : Arrival) :
    arrived (events ++ [.arrive a]) = arrived events ++ [a] := by
  simp [arrived]

@[simp] theorem arrived_other (events : List UartEvent)
    (i : { i : Interrupt // i.isReceive = false }) :
    arrived (events ++ [.other i]) = arrived events := by
  simp [arrived]

@[simp] theorem arrived_iterate (events : List UartEvent) (hw : Hw) :
    arrived (events ++ [.iterate hw]) = [] := by
  simp [arrived]

/-- The state behind iterations that have left nothing over. -/
structure Fresh (u : Uart) (arrivals : List Arrival) : Prop where
  fifo : u.fifo = arrivals.map Arrival.byte
  readyToRec : u.mcu.readyToRec = arrivals.any Arrival.clean
  rx : u.mcu.rxDataBuffer.contents = []

theorem fresh_init : Fresh Uart.init [] := ⟨rfl, rfl, contents_init⟩

theorem readyToRec_interrupt (s : State) (i : Interrupt) (h : i.isReceive = false) :
    (s.interrupt i).readyToRec = s.readyToRec := by
  cases i with
  | u1rx perr ferr => cases h
  | mi2c1 | adc1 | u1tx | t4 | t3 => rfl

theorem readyToRec_u1rx (s : State) (a : Arrival) :
    (s.interrupt (.u1rx a.perr a.ferr)).readyToRec = (s.readyToRec || a.clean) := by
  unfold State.interrupt Arrival.clean
  cases a.perr <;> cases a.ferr <;> simp

theorem fresh_arrive {u : Uart} {arrivals : List Arrival} (h : Fresh u arrivals) (a : Arrival) :
    Fresh ⟨u.mcu.interrupt (.u1rx a.perr a.ferr), u.fifo ++ [a.byte]⟩ (arrivals ++ [a]) := by
  refine ⟨?_, ?_, ?_⟩
  · rw [h.fifo, List.map_append, List.map_singleton]
  · rw [readyToRec_u1rx, h.readyToRec, List.any_append, List.any_cons, List.any_nil,
      Bool.or_false]
  · rw [(interrupt_frame u.mcu _).2.1, h.rx]

theorem fresh_other {u : Uart} {arrivals : List Arrival} (h : Fresh u arrivals)
    (i : { i : Interrupt // i.isReceive = false }) :
    Fresh ⟨u.mcu.interrupt i.val, u.fifo⟩ arrivals := by
  refine ⟨h.fifo, ?_, ?_⟩
  · rw [readyToRec_interrupt _ _ i.property, h.readyToRec]
  · rw [(interrupt_frame u.mcu _).2.1, h.rx]

/-- An iteration reads the oldest byte if a clean one has arrived.  It leaves
the receive buffer empty and the flag clear. -/
theorem step_iterate {u u' : Uart} {hw : Hw} {arrivals : List Arrival} {bytes : List UInt8}
    (h : Fresh u arrivals) (hstep : u.step (.iterate hw) = some (u', bytes)) :
    u'.mcu.readyToRec = false ∧ u'.mcu.rxDataBuffer.contents = [] ∧
      bytes = (if arrivals.any Arrival.clean then (arrivals.map Arrival.byte).take 1 else []) ∧
      u'.fifo = (arrivals.map Arrival.byte).drop bytes.length := by
  simp only [Uart.step, Option.bind_eq_bind, Option.bind_eq_some_iff, Option.pure_def,
    Option.some.injEq, Prod.mk.injEq] at hstep
  obtain ⟨⟨mcu, t⟩, hiterate, rfl, rfl⟩ := hstep
  have hserviced := iterate_inputs hiterate
  have hspec := iterate_spec hiterate
  have hfree : u.mcu.rxDataBuffer.free ≠ 0 := by
    rw [Buffer.free, h.rx]
    decide
  have hreceived := hserviced.received
  have hready := hserviced.readyToRec
  have hrx := hspec.rx
  rw [h.rx, List.nil_append] at hrx
  have hempty : mcu.rxDataBuffer.contents = [] := by
    cases hpop : t.popped with
    | none => exact hspec.pops hpop
    | some c =>
      have hlen := congrArg List.length hrx
      rw [hpop, Option.toList_some, List.length_append, List.length_singleton] at hlen
      have hone : t.received.toList.length ≤ 1 := by
        cases t.received <;> simp
      apply List.eq_nil_of_length_eq_zero
      omega
  rw [h.readyToRec] at hreceived hready
  refine ⟨?_, hempty, ?_, by rw [h.fifo]⟩
  · rw [hready, hreceived]
    cases hany : arrivals.any Arrival.clean
    · rfl
    · rw [if_pos ⟨rfl, hfree⟩]
      rfl
  · rw [hreceived, h.fifo]
    cases arrivals with
    | nil => simp
    | cons a arrivals =>
      by_cases hany : (a :: arrivals).any Arrival.clean
      · rw [if_pos ⟨hany, hfree⟩, if_pos hany]
        rfl
      · rw [if_neg (fun hboth => hany hboth.1), if_neg hany]
        rfl

/-- The FIFO is empty behind an iteration exactly if no byte or one clean byte
has arrived in front of it. -/
theorem step_iterate_iff {u u' : Uart} {hw : Hw} {arrivals : List Arrival} {bytes : List UInt8}
    (h : Fresh u arrivals) (hstep : u.step (.iterate hw) = some (u', bytes)) :
    (u'.fifo = [] ↔ Arrival.FewEnough arrivals) ∧
      (Arrival.FewEnough arrivals → bytes = arrivals.map Arrival.byte) := by
  obtain ⟨-, -, hbytes, hfifo⟩ := step_iterate h hstep
  unfold Arrival.FewEnough
  rw [hfifo, hbytes]
  rcases arrivals with _ | ⟨a, _ | ⟨b, arrivals⟩⟩
  · simp
  · cases hclean : a.clean <;> simp [hclean]
  · cases hany : (a :: b :: arrivals).any Arrival.clean <;> simp

/-! ## Runs -/

/-- The state of a run whose iterations have left the FIFO empty. -/
theorem fresh_of_emptied {u : Uart} {events : List UartEvent} (h : Uart.init.run events = some u)
    (hempty : ∀ pre hw u u' bytes, pre ++ [.iterate hw] <+: events →
      Uart.init.run pre = some u → u.step (.iterate hw) = some (u', bytes) →
      Fresh u (arrived pre) → u'.fifo = []) : Fresh u (arrived events) := by
  induction events using List.reverseRecOn generalizing u with
  | nil =>
    rw [Uart.run, Lib.Runs.run, Option.some.injEq] at h
    rw [← h]
    exact fresh_init
  | append_singleton events event ih =>
    obtain ⟨v, bytes, hrun, hstep⟩ := run_concat.1 h
    have hfresh : Fresh v (arrived events) := by
      apply ih hrun
      intro pre hw u u' bytes hpre
      exact hempty pre hw u u' bytes (hpre.trans (List.prefix_append events [event]))
    cases event with
    | arrive a =>
      rw [Uart.step, Option.some.injEq, Prod.mk.injEq] at hstep
      rw [← hstep.1, arrived_arrive]
      exact fresh_arrive hfresh a
    | other i =>
      rw [Uart.step, Option.some.injEq, Prod.mk.injEq] at hstep
      rw [← hstep.1, arrived_other]
      exact fresh_other hfresh i
    | iterate hw =>
      obtain ⟨hready, hrx, -, -⟩ := step_iterate hfresh hstep
      have hfifo := hempty events hw v u bytes List.prefix_rfl hrun hstep hfresh
      rw [arrived_iterate]
      exact ⟨hfifo, hready, hrx⟩

/-- No byte of a run is stranded in the UART exactly if between any two
iterations at most one byte arrives, and arrives without an error. -/
theorem noneStranded_iff {u : Uart} {events : List UartEvent}
    (h : Uart.init.run events = some u) : NoneStranded events ↔ Paced events := by
  constructor
  · intro hnone pre hw hpre
    obtain ⟨u₁, hrun₁⟩ := Lib.Runs.run_of_prefix hpre h
    obtain ⟨v, bytes, hrun, hstep⟩ := run_concat.1 hrun₁
    have hfresh : Fresh v (arrived pre) := by
      apply fresh_of_emptied hrun
      intro pre' hw' w w' bytes' hpre' hrun' hstep' hfresh'
      have hprefix' := hpre'.trans ((List.prefix_append pre [.iterate hw]).trans hpre)
      exact (hnone pre' hw' w w' bytes' hprefix' hrun' hstep'
        (step_iterate hfresh' hstep').1).1
    apply (step_iterate_iff hfresh hstep).1.1
    exact (hnone pre hw v u₁ bytes hpre hrun hstep (step_iterate hfresh hstep).1).1
  · intro hpaced pre hw v v' bytes hpre hrun hstep _
    have hfresh : Fresh v (arrived pre) := by
      apply fresh_of_emptied hrun
      intro pre' hw' w w' bytes' hpre' _ hstep' hfresh'
      have hprefix' := hpre'.trans ((List.prefix_append pre [.iterate hw]).trans hpre)
      exact (step_iterate_iff hfresh' hstep').1.2 (hpaced pre' hw' hprefix')
    obtain ⟨hiff, hbytes⟩ := step_iterate_iff hfresh hstep
    exact ⟨hiff.2 (hpaced pre hw hpre), hbytes (hpaced pre hw hpre)⟩

/-- No registers of interest. -/
def Hw.zero : Hw := ⟨0, 0, 0, 0, 0, 0, 0⟩

/-- One byte, an iteration, another byte, another iteration. -/
theorem noneStranded_two :
    NoneStranded [.arrive ⟨0xAA, false, false⟩, .iterate Hw.zero, .arrive ⟨7, false, false⟩,
      .iterate Hw.zero] := by
  obtain ⟨u, hrun⟩ : ∃ u, Uart.init.run [.arrive ⟨0xAA, false, false⟩, .iterate Hw.zero,
      .arrive ⟨7, false, false⟩, .iterate Hw.zero] = some u := ⟨_, rfl⟩
  apply (noneStranded_iff hrun).2
  intro pre hw hpre
  obtain ⟨suf, hsuf⟩ := hpre
  rw [List.append_assoc, List.singleton_append] at hsuf
  rcases pre with _ | ⟨e₁, _ | ⟨e₂, _ | ⟨e₃, _ | ⟨e₄, pre⟩⟩⟩⟩
  · simp at hsuf
  · obtain ⟨rfl, -⟩ := List.cons.inj hsuf
    exact Or.inr ⟨_, rfl, rfl⟩
  · simp at hsuf
  · simp only [List.cons_append, List.nil_append, List.cons.injEq] at hsuf
    obtain ⟨rfl, rfl, rfl, -⟩ := hsuf
    exact Or.inr ⟨_, rfl, rfl⟩
  · simp at hsuf

/-- Two bytes arrive before the iteration: the second stays in the UART, and
the third is stored one arrival late. -/
theorem byte_stranded :
    ∃ u u', Uart.init.run [.arrive ⟨0xAA, false, false⟩, .arrive ⟨1, false, false⟩,
        .iterate Hw.zero] = some u ∧
      u.mcu.readyToRec = false ∧ u.fifo = [1] ∧
      u.run [.arrive ⟨2, false, false⟩, .iterate Hw.zero] = some u' ∧
      u'.mcu.readyToRec = false ∧ u'.fifo = [2] :=
  ⟨_, _, rfl, rfl, rfl, rfl, rfl, rfl⟩

end MinotaurRobot.Mcu
