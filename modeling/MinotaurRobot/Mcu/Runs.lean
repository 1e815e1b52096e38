import MinotaurRobot.Mcu.Responses

/-!
# Runs of the microcontroller

A run interleaves interrupts and iterations of the main loop in any order.
`iterate_spec` is what one iteration does to the two byte buffers and to the
control packet, and everything about runs follows from it by induction:

* `run_rx`: the bytes popped and the bytes still in the receive buffer are
  the bytes received, in their order.
* `run_feed`: the packets handled and the control packet depend on the bytes
  popped only, as `feed` computes them.
* `run_tx`: while the transmit buffer does not run full, the bytes sent and
  the bytes still in the buffer are the bytes pushed, in their order.
-/

namespace MinotaurRobot.Mcu

/-! ## The sections of one iteration -/

@[simp] theorem ports_readSensors (hw : Hw) (s : State) :
    (readSensors hw s).ports = s.ports := by
  unfold readSensors
  split <;> rfl

@[simp] theorem ports_i2cRequest (s : State) : (i2cRequest s).1.ports = s.ports := by
  rw [i2cRequest]
  split <;> rfl

theorem ports_ite {c : Prop} [Decidable c] {a b : State × List BusAction} {p : Ports}
    (ha : a.1.ports = p) (hb : b.1.ports = p) : (if c then a else b).1.ports = p := by
  by_cases h : c
  · rw [if_pos h, ha]
  · rw [if_neg h, hb]

@[simp] theorem ports_i2cService (hw : Hw) (s : State) :
    (i2cService hw s).1.ports = s.ports := by
  unfold i2cService
  repeat' apply ports_ite
  all_goals rfl

/-- `printString` prints the whole string if it fits, and waits forever if it
does not. -/
theorem printString_eq (tx : Buffer) (string : List UInt8) :
    printString tx string =
      if string.length ≤ tx.free then some (pushAll tx string) else none := by
  induction string generalizing tx with
  | nil => rw [printString, List.length_nil, if_pos (Nat.zero_le _), pushAll_nil]
  | cons c string ih =>
    have hfree : (buffPush tx c).1.free = tx.free - 1 := pushAll_free tx [c]
    have hpush : pushAll tx (c :: string) = pushAll (buffPush tx c).1 string := rfl
    rw [printString, ih, hfree, hpush, List.length_cons]
    by_cases hfull : tx.free = 0
    · rw [if_pos ((buffStatus_eq_full_iff tx).2 hfull), if_neg (by omega)]
    · rw [if_neg (mt (buffStatus_eq_full_iff tx).1 hfull)]
      by_cases hroom : string.length + 1 ≤ tx.free
      · rw [if_pos hroom, if_pos (by omega)]
      · rw [if_neg hroom, if_neg (by omega)]

/-- What the debug section prints. -/
def printedText (s : State) : List UInt8 := if s.print then debugText s.sensors else []

/-- The debug section waits forever exactly if its text does not fit. -/
theorem debugPrint_eq_none_iff (s : State) :
    debugPrint s = none ↔ s.txDataBuffer.free < (printedText s).length := by
  rw [debugPrint, printedText]
  by_cases hprint : s.print
  · rw [if_pos hprint, if_pos hprint, Option.map_eq_none_iff, printString_eq]
    split <;> simp <;> omega
  · rw [if_neg hprint, if_neg hprint]
    simp

theorem ports_debugPrint {s s' : State} (h : debugPrint s = some s') :
    s'.ports = { s.ports.push (printedText s) with print := false } := by
  rw [debugPrint] at h
  unfold printedText
  split at h
  · rename_i hprint
    rw [if_pos hprint]
    rw [printString_eq] at h
    split at h
    · rw [Option.map_some, Option.some.injEq] at h
      rw [← h]
      rfl
    · rw [Option.map_none] at h
      exact absurd h (by simp)
  · rename_i hprint
    rw [Option.some.injEq] at h
    rw [if_neg hprint, Ports.push_nil, h]
    rw [Bool.not_eq_true] at hprint
    rw [h] at hprint
    rw [← hprint]
    rfl

theorem uartSend_spec (s : State) :
    (uartSend s).2.toList ++ (uartSend s).1.txDataBuffer.contents =
        s.txDataBuffer.contents ∧
      (uartSend s).1.rxDataBuffer = s.rxDataBuffer ∧
      (uartSend s).1.controlpacket = s.controlpacket ∧
      (uartSend s).1.print = s.print := by
  unfold uartSend
  split
  · rename_i h
    refine ⟨?_, rfl, rfl, rfl⟩
    have hne : s.txDataBuffer.contents ≠ [] := by
      rw [ne_eq, ← buffStatus_eq_empty_iff]
      simpa using (Bool.and_eq_true_iff.1 h).2
    obtain ⟨c, rest, hc⟩ := List.exists_cons_of_ne_nil hne
    have hpop := buffPop_contents s.txDataBuffer
    rw [hc] at hpop
    simp only [Option.toList_some, hpop.1, hpop.2, hc]
    rfl
  · exact ⟨rfl, rfl, rfl, rfl⟩

theorem uartReceive_spec (hw : Hw) (s : State) :
    (uartReceive hw s).1.rxDataBuffer.contents =
        s.rxDataBuffer.contents ++ (uartReceive hw s).2.toList ∧
      (uartReceive hw s).1.txDataBuffer = s.txDataBuffer ∧
      (uartReceive hw s).1.controlpacket = s.controlpacket ∧
      (uartReceive hw s).1.print = s.print := by
  unfold uartReceive
  split
  · rename_i h
    refine ⟨?_, rfl, rfl, rfl⟩
    have hroom : s.rxDataBuffer.free ≠ 0 := by
      rw [ne_eq, ← buffStatus_eq_full_iff]
      simpa using (Bool.and_eq_true_iff.1 h).2
    simp only [Option.toList_some]
    rw [buffPush_contents, if_neg hroom]
  · refine ⟨?_, rfl, rfl, rfl⟩
    rw [Option.toList_none, List.append_nil]

/-- The control packet after the bytes of one iteration. -/
def assembled (p : ControlData) : Option UInt8 → ControlData
  | none => p
  | some c => assemblyStep p c

theorem assemble_spec (s : State) :
    (assemble s).2.toList ++ (assemble s).1.rxDataBuffer.contents =
        s.rxDataBuffer.contents ∧
      ((assemble s).2 = none → s.rxDataBuffer.contents = []) ∧
      (assemble s).1.txDataBuffer = pushAll s.txDataBuffer (assemble s).2.toList ∧
      (assemble s).1.controlpacket = assembled s.controlpacket (assemble s).2 ∧
      (assemble s).1.print = s.print := by
  unfold assemble
  split
  · rename_i h
    have hne : s.rxDataBuffer.contents ≠ [] := by
      rw [ne_eq, ← buffStatus_eq_empty_iff]
      simpa using h
    obtain ⟨c, rest, hc⟩ := List.exists_cons_of_ne_nil hne
    have hpop := buffPop_contents s.rxDataBuffer
    rw [hc] at hpop
    refine ⟨?_, by simp, rfl, rfl, rfl⟩
    simp only [Option.toList_some, hpop.1, hpop.2, hc]
    rfl
  · rename_i h
    refine ⟨rfl, fun _ => ?_, rfl, rfl, rfl⟩
    rw [← buffStatus_eq_empty_iff]
    simpa using h

/-! ## One iteration -/

/-- The packet that the handlers handle, and the control packet behind them. -/
def settle (p : ControlData) : Option ControlData × ControlData :=
  if p.bytesRecieved = 5 then (some p, { p with bytesRecieved := 0 }) else (none, p)

/-- The responses that one iteration sends. -/
def Trace.responses (t : Trace) : List (List UInt8) :=
  match t.handled with
  | none => []
  | some s => Mcu.responses s

theorem Trace.responses_of_handled {t : Trace} (s : State)
    (h : t.handled = if s.controlpacket.bytesRecieved = 5 then some s else none) :
    t.responses = Mcu.responses s := by
  rw [Trace.responses, h]
  by_cases hcomplete : s.controlpacket.bytesRecieved = 5
  · rw [if_pos hcomplete]
  · rw [if_neg hcomplete, Mcu.responses, if_neg hcomplete]

/-- The bytes that one iteration pushes into the transmit buffer. -/
def Trace.pushed (t : Trace) : List UInt8 :=
  t.printed ++ t.popped.toList ++ t.responses.flatten

/-- What one iteration does to the byte buffers and the control packet. -/
structure Iterated (s s' : State) (t : Trace) : Prop where
  rx : t.popped.toList ++ s'.rxDataBuffer.contents =
    s.rxDataBuffer.contents ++ t.received.toList
  pops : t.popped = none → s'.rxDataBuffer.contents = []
  bytesRecieved : t.bytesRecieved = s.controlpacket.bytesRecieved
  packet : settle (assembled s.controlpacket t.popped) =
    (t.handled.map State.controlpacket, s'.controlpacket)
  left : t.bytesLeft = s'.controlpacket.bytesRecieved
  printed : t.printed = [] ∨ ∃ v, t.printed = debugText v
  print : s'.print = false
  tx : t.txFull = false →
    t.sent.toList ++ s'.txDataBuffer.contents = s.txDataBuffer.contents ++ t.pushed

/-- Pushes that do not fill the buffer keep all bytes. -/
theorem pushAll_contents_of_not_full {buff : Buffer} {bytes : List UInt8}
    (h : buffStatus (pushAll buff bytes) ≠ .full) :
    (pushAll buff bytes).contents = buff.contents ++ bytes := by
  rw [ne_eq, buffStatus_eq_full_iff, pushAll_free] at h
  rw [pushAll_contents, List.take_of_length_le (by omega)]

theorem handlePacket_rx (s : State) : (handlePacket s).rxDataBuffer = s.rxDataBuffer := by
  rw [← ports_rx, ports_handlePacket]
  split <;> rfl

theorem settle_handlePacket (s : State) :
    settle s.controlpacket =
      ((if s.controlpacket.bytesRecieved = 5 then some s else none).map State.controlpacket,
        (handlePacket s).controlpacket) := by
  rw [← ports_packet (handlePacket s), ports_handlePacket, settle]
  split <;> rfl

theorem handlePacket_print (s : State) : (handlePacket s).print = s.print := by
  rw [← ports_print, ports_handlePacket]
  split <;> rfl

theorem iterate_spec {hw : Hw} {s s' : State} {t : Trace}
    (h : iterate hw s = some (s', t)) : Iterated s s' t := by
  simp only [iterate, Option.bind_eq_bind, Option.bind_eq_some_iff, Option.pure_def,
    Option.some.injEq, Prod.mk.injEq] at h
  obtain ⟨s₁, hprint, rfl, rfl⟩ := h
  have hports := ports_debugPrint hprint
  rw [ports_readSensors] at hports
  have htx₁ : s₁.txDataBuffer = pushAll s.txDataBuffer (printedText (readSensors hw s)) :=
    congrArg Ports.tx hports
  have hrx₁ : s₁.rxDataBuffer = s.rxDataBuffer := congrArg Ports.rx hports
  have hpacket₁ : s₁.controlpacket = s.controlpacket := congrArg Ports.packet hports
  have hprint₁ : s₁.print = false := congrArg Ports.print hports
  obtain ⟨hsendTx, hsendRx, hsendPacket, hsendPrint⟩ := uartSend_spec s₁
  obtain ⟨hrecRx, hrecTx, hrecPacket, hrecPrint⟩ := uartReceive_spec hw (uartSend s₁).1
  obtain ⟨hasmRx, hasmPops, hasmTx, hasmPacket, hasmPrint⟩ :=
    assemble_spec (uartReceive hw (uartSend s₁).1).1
  have hmid := (ports_i2cService hw (i2cRequest (assemble (uartReceive hw
    (uartSend s₁).1).1).1).1).trans (ports_i2cRequest _)
  generalize (i2cService hw (i2cRequest (assemble (uartReceive hw
    (uartSend s₁).1).1).1).1).1 = mid at hmid ⊢
  have hmidTx : mid.txDataBuffer = _ := congrArg Ports.tx hmid
  have hmidRx : mid.rxDataBuffer = _ := congrArg Ports.rx hmid
  have hmidPacket : mid.controlpacket = _ := congrArg Ports.packet hmid
  have hmidPrint : mid.print = _ := congrArg Ports.print hmid
  rw [ports_tx, hasmTx, hrecTx] at hmidTx
  rw [ports_rx] at hmidRx
  rw [ports_packet, hasmPacket, hrecPacket, hsendPacket, hpacket₁] at hmidPacket
  rw [ports_print, hasmPrint, hrecPrint, hsendPrint, hprint₁] at hmidPrint
  rw [hrecRx, hsendRx, hrx₁] at hasmRx hasmPops
  refine ⟨?_, ?_, ?_, ?_, by dsimp only, ?_, ?_, ?_⟩
  · rw [handlePacket_rx, hmidRx]
    exact hasmRx
  · intro hnone
    rw [handlePacket_rx, hmidRx]
    have := hasmPops hnone
    rw [this] at hasmRx
    exact (List.append_eq_nil_iff.1 hasmRx).2
  · rw [hrecPacket, hsendPacket, hpacket₁]
  · exact (congrArg settle hmidPacket.symm).trans (settle_handlePacket mid)
  · dsimp only
    split
    · exact Or.inr ⟨_, rfl⟩
    · exact Or.inl rfl
  · rw [handlePacket_print, hmidPrint]
  · intro hfull
    rw [Bool.or_eq_false_iff, beq_eq_false_iff_ne, beq_eq_false_iff_ne] at hfull
    obtain ⟨hfull₁, hfull₂⟩ := hfull
    rw [handlePacket_tx, hmidTx, ← pushAll_append] at hfull₂
    rw [htx₁] at hfull₁
    rw [handlePacket_tx, hmidTx, ← pushAll_append, pushAll_contents_of_not_full hfull₂,
      ← List.append_assoc, hsendTx, htx₁, pushAll_contents_of_not_full hfull₁,
      List.append_assoc, Trace.pushed, Trace.responses_of_handled mid rfl, List.append_assoc]
    rfl

/-- An iteration waits forever exactly if the debug text does not fit. -/
theorem iterate_eq_none_iff (hw : Hw) (s : State) :
    iterate hw s = none ↔
      s.txDataBuffer.free < (printedText (readSensors hw s)).length := by
  have htx : (readSensors hw s).txDataBuffer = s.txDataBuffer :=
    congrArg Ports.tx (ports_readSensors hw s)
  rw [← htx, ← debugPrint_eq_none_iff]
  simp only [iterate, Option.bind_eq_bind, Option.bind_eq_none_iff, Option.pure_def]
  constructor
  · intro h
    by_contra hsome
    obtain ⟨s₁, hs₁⟩ := Option.ne_none_iff_exists'.1 hsome
    exact absurd (h s₁ hs₁) (by simp)
  · intro h s₁ hs₁
    rw [h] at hs₁
    exact absurd hs₁ (by simp)

/-! ## Runs -/

/-- One step of a run. -/
inductive Event where
  | interrupt (i : Interrupt)
  | iterate (hw : Hw)
  deriving DecidableEq

/-- A run from a state.  `none` when an iteration waits forever. -/
def run : State → List Event → Option (State × List Trace)
  | s, [] => some (s, [])
  | s, .interrupt i :: events => run (s.interrupt i) events
  | s, .iterate hw :: events => do
    let (s, t) ← iterate hw s
    let (s, ts) ← run s events
    return (s, t :: ts)

theorem run_iterate_eq_some {hw : Hw} {s s' : State} {events : List Event} {ts : List Trace}
    (h : run s (.iterate hw :: events) = some (s', ts)) :
    ∃ s₁ t ts', iterate hw s = some (s₁, t) ∧ run s₁ events = some (s', ts') ∧
      ts = t :: ts' := by
  simp only [run, Option.bind_eq_bind, Option.bind_eq_some_iff, Option.pure_def,
    Option.some.injEq, Prod.mk.injEq] at h
  obtain ⟨⟨s₁, t⟩, hiterate, ⟨s₂, ts'⟩, hrun, rfl, rfl⟩ := h
  exact ⟨s₁, t, ts', hiterate, hrun, rfl⟩

/-- Two runs, one after the other. -/
theorem run_append {s s' s'' : State} {xs ys : List Event} {ts ts' : List Trace}
    (h : run s xs = some (s', ts)) (h' : run s' ys = some (s'', ts')) :
    run s (xs ++ ys) = some (s'', ts ++ ts') := by
  induction xs generalizing s ts with
  | nil =>
    rw [run, Option.some.injEq, Prod.mk.injEq] at h
    obtain ⟨rfl, rfl⟩ := h
    exact h'
  | cons event xs ih =>
    cases event with
    | interrupt i => exact ih h
    | iterate hw =>
      obtain ⟨s₁, t, ts₁, hiterate, hrun, rfl⟩ := run_iterate_eq_some h
      simp [run, hiterate, ih hrun]

/-- The two parts of a run. -/
theorem run_append_eq_some {s s'' : State} {xs ys : List Event} {ts : List Trace}
    (h : run s (xs ++ ys) = some (s'', ts)) :
    ∃ s' ts₁ ts₂, run s xs = some (s', ts₁) ∧ run s' ys = some (s'', ts₂) ∧
      ts = ts₁ ++ ts₂ := by
  induction xs generalizing s ts with
  | nil => exact ⟨s, [], ts, rfl, h, rfl⟩
  | cons event xs ih =>
    cases event with
    | interrupt i => exact ih h
    | iterate hw =>
      obtain ⟨s₁, t, ts', hiterate, hrun, rfl⟩ := run_iterate_eq_some h
      obtain ⟨s', ts₁, ts₂, hxs, hys, rfl⟩ := ih hrun
      exact ⟨s', t :: ts₁, ts₂, by simp [run, hiterate, hxs], hys, rfl⟩

/-- What holds of the empty run and is kept by interrupts and iterations holds
of every run. -/
theorem run_rule {motive : State → List Trace → State → Prop}
    (nil : ∀ s, motive s [] s)
    (interrupt : ∀ s i ts s', motive (s.interrupt i) ts s' → motive s ts s')
    (iterate : ∀ s t s₁ ts s', Iterated s s₁ t → motive s₁ ts s' → motive s (t :: ts) s')
    {s s' : State} {events : List Event} {ts : List Trace}
    (h : run s events = some (s', ts)) : motive s ts s' := by
  induction events generalizing s ts with
  | nil =>
    rw [run, Option.some.injEq, Prod.mk.injEq] at h
    obtain ⟨rfl, rfl⟩ := h
    exact nil s
  | cons event events ih =>
    cases event with
    | interrupt i => exact interrupt s i ts s' (ih h)
    | iterate hw =>
      obtain ⟨s₁, t, ts', hiterate, hrun, rfl⟩ := run_iterate_eq_some h
      exact iterate s t s₁ ts' s' (iterate_spec hiterate) (ih hrun)

/-- A run without a request for debug text never waits. -/
theorem run_isSome {s : State} {events : List Event} (hprint : s.print = false)
    (hevents : Event.interrupt .t4 ∉ events) : (run s events).isSome := by
  induction events generalizing s with
  | nil => rfl
  | cons event events ih =>
    rw [List.mem_cons, not_or] at hevents
    cases event with
    | interrupt i =>
      refine ih ?_ hevents.2
      cases i with
      | t4 => exact absurd rfl hevents.1
      | u1rx perr ferr =>
        rw [State.interrupt]
        split <;> exact hprint
      | mi2c1 | adc1 | u1tx | t3 => exact hprint
    | iterate hw =>
      have hprint' : (readSensors hw s).print = s.print :=
        congrArg Ports.print (ports_readSensors hw s)
      have hsome : iterate hw s ≠ none := by
        rw [ne_eq, iterate_eq_none_iff, printedText, hprint', hprint]
        simp
      obtain ⟨⟨s₁, t⟩, hiterate⟩ := Option.ne_none_iff_exists'.1 hsome
      obtain ⟨⟨s₂, ts⟩, hrun⟩ := Option.isSome_iff_exists.1
        (ih (iterate_spec hiterate).print hevents.2)
      simp [run, hiterate, hrun]

/-! ## The bytes of a run -/

/-- The bytes stored in the receive buffer. -/
def received (ts : List Trace) : List UInt8 := ts.flatMap fun t => t.received.toList

/-- The bytes popped from the receive buffer. -/
def popped (ts : List Trace) : List UInt8 := ts.flatMap fun t => t.popped.toList

/-- The bytes written to `U1TXREG`. -/
def sent (ts : List Trace) : List UInt8 := ts.flatMap fun t => t.sent.toList

/-- The bytes pushed into the transmit buffer. -/
def pushed (ts : List Trace) : List UInt8 := ts.flatMap Trace.pushed

/-- The control packets handled, one for each iteration that handles one. -/
def handledPackets (ts : List Trace) : List ControlData :=
  ts.flatMap fun t => (t.handled.map State.controlpacket).toList

/-- The receive buffer neither loses nor reorders bytes. -/
theorem run_rx {s s' : State} {events : List Event} {ts : List Trace}
    (h : run s events = some (s', ts)) :
    popped ts ++ s'.rxDataBuffer.contents = s.rxDataBuffer.contents ++ received ts := by
  refine run_rule (motive := fun s ts s' =>
    popped ts ++ s'.rxDataBuffer.contents = s.rxDataBuffer.contents ++ received ts)
    ?_ ?_ ?_ h
  · intro s
    simp [popped, received]
  · intro s i ts s' ih
    rw [(interrupt_frame s i).2.1] at ih
    exact ih
  · intro s t s₁ ts s' hstep ih
    rw [popped, received, List.flatMap_cons, List.flatMap_cons, List.append_assoc,
      ← popped, ih, ← List.append_assoc, hstep.rx, List.append_assoc]
    rfl

/-- Every iteration pops a byte unless the receive buffer is empty. -/
theorem run_pops {s s' : State} {events : List Event} {ts : List Trace}
    (h : run s events = some (s', ts)) (hreceived : received ts = []) :
    s'.rxDataBuffer.contents.length = s.rxDataBuffer.contents.length - ts.length := by
  refine run_rule (motive := fun s ts s' => received ts = [] →
    s'.rxDataBuffer.contents.length = s.rxDataBuffer.contents.length - ts.length)
    ?_ ?_ ?_ h hreceived
  · intro s _
    rfl
  · intro s i ts s' ih hreceived
    rw [(interrupt_frame s i).2.1] at ih
    exact ih hreceived
  · intro s t s₁ ts s' hstep ih hreceived
    rw [received, List.flatMap_cons, List.append_eq_nil_iff] at hreceived
    have hlen := congrArg List.length hstep.rx
    have hpops := hstep.pops
    rw [hreceived.1, List.append_nil, List.length_append] at hlen
    rw [ih hreceived.2, List.length_cons]
    cases hpop : t.popped with
    | none =>
      rw [hpop] at hlen
      rw [hpops hpop] at hlen ⊢
      rw [Option.toList_none] at hlen
      simp only [List.length_nil] at hlen ⊢
      omega
    | some c =>
      rw [hpop, Option.toList_some, List.length_singleton] at hlen
      omega

/-- While it does not run full, the transmit buffer neither loses nor reorders
bytes. -/
theorem run_tx {s s' : State} {events : List Event} {ts : List Trace}
    (h : run s events = some (s', ts)) (hfull : ∀ t ∈ ts, t.txFull = false) :
    sent ts ++ s'.txDataBuffer.contents = s.txDataBuffer.contents ++ pushed ts := by
  refine run_rule (motive := fun s ts s' => (∀ t ∈ ts, t.txFull = false) →
    sent ts ++ s'.txDataBuffer.contents = s.txDataBuffer.contents ++ pushed ts)
    ?_ ?_ ?_ h hfull
  · intro s _
    simp [sent, pushed]
  · intro s i ts s' ih hfull
    rw [(interrupt_frame s i).1] at ih
    exact ih hfull
  · intro s t s₁ ts s' hstep ih hfull
    have hhead := hstep.tx (hfull t (List.mem_cons_self ..))
    have htail := ih fun u hu => hfull u (List.mem_cons_of_mem t hu)
    rw [sent, pushed, List.flatMap_cons, List.flatMap_cons, List.append_assoc, ← sent,
      htail, ← List.append_assoc, hhead, List.append_assoc]
    rfl

/-! ## The packets of a run -/

/-- The control packet after a sequence of bytes, and the packets completed. -/
def feed : ControlData → List UInt8 → ControlData × List ControlData
  | p, [] => (p, [])
  | p, c :: bytes =>
    let (handled, q) := settle (assemblyStep p c)
    let (r, done) := feed q bytes
    (r, handled.toList ++ done)

theorem feed_cons (p : ControlData) (c : UInt8) (bytes : List UInt8) :
    feed p (c :: bytes) =
      ((feed (settle (assemblyStep p c)).2 bytes).1,
        (settle (assemblyStep p c)).1.toList ++ (feed (settle (assemblyStep p c)).2 bytes).2) :=
  rfl

theorem settle_of_le {p : ControlData} (h : p.bytesRecieved ≤ 4) : settle p = (none, p) := by
  rw [settle, if_neg]
  intro heq
  rw [heq] at h
  exact absurd h (by decide)

theorem le_four_cases {b : UInt8} (h : b ≤ 4) : b = 0 ∨ b = 1 ∨ b = 2 ∨ b = 3 ∨ b = 4 := by
  simp only [UInt8.le_iff_toNat_le, ← UInt8.toNat_inj] at *
  have hfour : (4 : UInt8).toNat = 4 := rfl
  simp only [hfour] at h
  simp only [UInt8.reduceToNat]
  omega

/-- The first byte of a packet is a sync byte, and all others are passed
over. -/
theorem assemblyStep_first {p : ControlData} (h : p.bytesRecieved = 0) (c : UInt8) :
    (assemblyStep p c).bytesRecieved = if c = syncByte then 1 else 0 := by
  rw [assemblyStep, if_pos h]
  split
  · rfl
  · exact h

/-- Every byte behind the first is counted.  The default branch of the
assembly switch is not reached. -/
theorem assemblyStep_next {p : ControlData} (h : p.bytesRecieved ≤ 4) (hne : p.bytesRecieved ≠ 0)
    (c : UInt8) : (assemblyStep p c).bytesRecieved = p.bytesRecieved + 1 := by
  rcases le_four_cases h with hb | hb | hb | hb | hb
  · exact absurd hb hne
  all_goals simp [assemblyStep, hb]

/-- Behind the handlers there are at most four bytes again. -/
theorem settle_assemblyStep_le {p : ControlData} (h : p.bytesRecieved ≤ 4) (c : UInt8) :
    (settle (assemblyStep p c)).2.bytesRecieved ≤ 4 := by
  unfold settle
  split
  · simp
  · rename_i hne
    by_cases hzero : p.bytesRecieved = 0
    · rw [assemblyStep_first hzero]
      split <;> decide
    · rw [assemblyStep_next h hzero] at hne ⊢
      rcases le_four_cases h with hb | hb | hb | hb | hb <;> rw [hb] at hne ⊢ <;>
        first | decide | exact absurd rfl hne

/-- A handled packet is consumed. -/
theorem settle_consumes {p q r : ControlData} (h : settle p = (some q, r)) :
    r.bytesRecieved = 0 := by
  rw [settle] at h
  split at h
  · rw [← (Prod.mk.inj h).2]
  · exact absurd (Prod.mk.inj h).1 (by simp)

/-- A run handles the packets that its bytes complete.  A byte is popped only
while the control packet has at most four bytes, and a handled packet leaves
none. -/
theorem run_feed {s s' : State} {events : List Event} {ts : List Trace}
    (h : run s events = some (s', ts)) (hle : s.controlpacket.bytesRecieved ≤ 4) :
    feed s.controlpacket (popped ts) = (s'.controlpacket, handledPackets ts) ∧
      ∀ t ∈ ts, t.bytesRecieved ≤ 4 ∧ (t.handled.isSome → t.bytesLeft = 0) := by
  refine run_rule (motive := fun s ts s' => s.controlpacket.bytesRecieved ≤ 4 →
    feed s.controlpacket (popped ts) = (s'.controlpacket, handledPackets ts) ∧
      ∀ t ∈ ts, t.bytesRecieved ≤ 4 ∧ (t.handled.isSome → t.bytesLeft = 0))
    ?_ ?_ ?_ h hle
  · intro s _
    exact ⟨rfl, by simp⟩
  · intro s i ts s' ih hle
    rw [(interrupt_frame s i).2.2] at ih
    exact ih hle
  · intro s t s₁ ts s' hstep ih hle
    have hpacket := hstep.packet
    have hle₁ : s₁.controlpacket.bytesRecieved ≤ 4 := by
      cases hpop : t.popped with
      | none =>
        rw [hpop, assembled, settle_of_le hle, Prod.mk.injEq] at hpacket
        rw [← hpacket.2]
        exact hle
      | some c =>
        have := settle_assemblyStep_le hle c
        rw [hpop, assembled] at hpacket
        rw [hpacket] at this
        exact this
    obtain ⟨hfeed, htail⟩ := ih hle₁
    constructor
    · rw [popped, handledPackets, List.flatMap_cons, List.flatMap_cons, ← popped,
        ← handledPackets]
      cases hpop : t.popped with
      | none =>
        rw [hpop, assembled, settle_of_le hle, Prod.mk.injEq] at hpacket
        rw [← hpacket.1, hpacket.2, Option.toList_none, Option.toList_none,
          List.nil_append, List.nil_append, hfeed]
      | some c =>
        rw [hpop, assembled] at hpacket
        rw [Option.toList_some, List.singleton_append, feed_cons, hpacket, hfeed]
    · intro u hu
      rcases List.mem_cons.1 hu with rfl | hu
      · refine ⟨hstep.bytesRecieved ▸ hle, fun hsome => ?_⟩
        obtain ⟨m, hm⟩ := Option.isSome_iff_exists.1 hsome
        rw [hm, Option.map_some] at hpacket
        rw [hstep.left, settle_consumes hpacket]
      · exact htail u hu

end MinotaurRobot.Mcu
