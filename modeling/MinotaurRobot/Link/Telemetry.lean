import MinotaurRobot.Cnc.Metrics
import MinotaurRobot.Host.Checks
import MinotaurRobot.Lib.Pieces
import MinotaurRobot.Link.Polls
import MinotaurRobot.Link.Uplink

/-!
# From the sensors to the metrics

What the host serves if every debug text falls between two packets.  The bytes
on the line are then pieces: texts, echoes of whole packets and responses.
`uplink_exact` says that the host serves the echoes and the responses, and
nothing else.

The threads of the host send commands for the motors and polls only, so no echo
looks like a response.  `state_measured` goes on to `currentState`: it is that
of the start, or its sensor values are those of polls that the microcontroller
has answered.
-/

namespace MinotaurRobot.Link

open MinotaurRobot.Host MinotaurRobot.Mcu Lib.Framing

/-! ## The pieces of an iteration -/

/-- The bytes of a control packet. -/
def echoOf (p : ControlData) : List UInt8 :=
  [syncByte, p.sequence, p.command, p.data1, p.data2]

/-- The bytes of a control packet that have arrived. -/
def echoed (p : ControlData) : List UInt8 := (echoOf p).take p.bytesRecieved.toNat

/-- The echo of a packet, and the responses. -/
def exchange (s : State) : List (List UInt8) := echoOf s.controlpacket :: responses s

def exchanged (ts : List Trace) : List (List UInt8) :=
  ts.flatMap fun t => t.handled.toList.flatMap exchange

/-- The text of an iteration, the packet that it has completed, and a byte
outside packets. -/
def piecesOf (t : Trace) : List (Piece UInt8) :=
  .noise t.printed ::
    match t.handled with
    | some s => (exchange s).map .frame
    | none => if t.bytesRecieved = 0 ∧ t.bytesLeft = 0 then [.noise t.popped.toList] else []

/-- No text is printed inside a packet. -/
def TextsBetween (ts : List Trace) : Prop := ∀ t ∈ ts, t.printed ≠ [] → t.bytesRecieved = 0

theorem framesOf_frames (frames : List (List UInt8)) :
    framesOf (frames.map Piece.frame) = frames := by
  induction frames with
  | nil => rfl
  | cons f frames ih => exact congrArg (f :: ·) ih

theorem framesOf_piecesOf (ts : List Trace) : framesOf (ts.flatMap piecesOf) = exchanged ts := by
  induction ts with
  | nil => rfl
  | cons t ts ih =>
    have hone : framesOf (piecesOf t) = t.handled.toList.flatMap exchange := by
      unfold piecesOf
      cases t.handled with
      | none =>
        show framesOf (if t.bytesRecieved = 0 ∧ t.bytesLeft = 0 then _ else []) = []
        split <;> rfl
      | some s =>
        show framesOf ((exchange s).map Piece.frame) = [s].flatMap exchange
        rw [framesOf_frames, List.flatMap_singleton]
    unfold exchanged
    rw [List.flatMap_cons, List.flatMap_cons, framesOf, List.filterMap_append, ← framesOf,
      ← framesOf, ih, hone]
    rfl

/-- A byte behind the first is one more of the packet. -/
theorem take_echoOf_next {p : ControlData} (h : p.bytesRecieved ≤ 4) (hne : p.bytesRecieved ≠ 0)
    (c : UInt8) : (echoOf (assemblyStep p c)).take (p.bytesRecieved.toNat + 1) = echoed p ++ [c] := by
  rcases le_four_cases h with hb | hb | hb | hb | hb
  · exact absurd hb hne
  all_goals simp [echoed, echoOf, assemblyStep, hb]

theorem echoed_of_zero {p : ControlData} (h : p.bytesRecieved = 0) : echoed p = [] := by
  rw [echoed, h]
  rfl

/-- What one iteration adds to the line. -/
structure Added (s s₁ : State) (t : Trace) : Prop where
  le : s₁.controlpacket.bytesRecieved ≤ 4
  valid : ∀ p ∈ piecesOf t, p.Valid isSync 5
  bytes : echoed s.controlpacket ++ t.pushed = joined (piecesOf t) ++ echoed s₁.controlpacket

theorem valid_printed {s s₁ : State} {t : Trace} (hstep : Iterated s s₁ t) :
    Piece.Valid isSync 5 (.noise t.printed) := by
  rcases hstep.printed with hnil | ⟨v, hv⟩
  · rw [hnil]
    intro c hc
    cases hc
  · rw [hv]
    exact debugText_noSync v

theorem joined_frames (frames : List (List UInt8)) :
    joined (frames.map Piece.frame) = frames.flatten := by
  unfold joined
  rw [List.flatMap_map]
  exact List.flatMap_id' ..

theorem joined_cons (p : Piece UInt8) (pieces : List (Piece UInt8)) :
    joined (p :: pieces) = p.elems ++ joined pieces := rfl

/-- An iteration that completes no packet. -/
theorem added_part {s s₁ : State} {t : Trace} (hstep : Iterated s s₁ t)
    (hnone : t.handled = none) (hle : s₁.controlpacket.bytesRecieved ≤ 4)
    (hsync : s.controlpacket.bytesRecieved = 0 → s₁.controlpacket.bytesRecieved = 0 →
      ∀ c ∈ t.popped.toList, isSync c = false)
    (hbytes : echoed s.controlpacket ++ t.printed ++ t.popped.toList =
      t.printed ++ (if s.controlpacket.bytesRecieved = 0 ∧ s₁.controlpacket.bytesRecieved = 0 then
        t.popped.toList else []) ++ echoed s₁.controlpacket) : Added s s₁ t := by
  have hpieces : piecesOf t = .noise t.printed ::
      if s.controlpacket.bytesRecieved = 0 ∧ s₁.controlpacket.bytesRecieved = 0 then
        [.noise t.popped.toList] else [] := by
    rw [piecesOf, hnone, ← hstep.bytesRecieved, ← hstep.left]
  refine ⟨hle, ?_, ?_⟩
  · rw [hpieces]
    intro p hp
    rcases List.mem_cons.1 hp with rfl | hp
    · exact valid_printed hstep
    · split at hp
      · rename_i hzero
        rw [List.mem_singleton] at hp
        rw [hp]
        exact hsync hzero.1 hzero.2
      · cases hp
  · have hresponses : t.responses = [] := by rw [Trace.responses, hnone]
    rw [Trace.pushed, hresponses, List.flatten_nil, List.append_nil, ← List.append_assoc, hbytes,
      hpieces, joined_cons]
    congr 2
    split
    · exact (List.append_nil _).symm
    · rfl

/-- An iteration that completes a packet. -/
theorem added_whole {s s₁ u : State} {t : Trace} (hstep : Iterated s s₁ t)
    (hhandled : t.handled = some u) (hidle : s₁.controlpacket.bytesRecieved = 0)
    (hprinted : t.printed = [])
    (hwhole : echoed s.controlpacket ++ t.popped.toList = echoOf u.controlpacket) :
    Added s s₁ t := by
  have hpieces : piecesOf t = .noise t.printed :: (exchange u).map .frame := by
    rw [piecesOf, hhandled]
  have hresponses : t.responses = responses u := by rw [Trace.responses, hhandled]
  refine ⟨by rw [hidle]; decide, ?_, ?_⟩
  · rw [hpieces]
    intro p hp
    rcases List.mem_cons.1 hp with rfl | hp
    · exact valid_printed hstep
    · obtain ⟨frame, hframe, rfl⟩ := List.mem_map.1 hp
      rcases List.mem_cons.1 hframe with rfl | hframe
      · exact ⟨rfl, syncByte, _, rfl, by decide⟩
      · exact responses_isFrame t frame (hresponses ▸ hframe)
  · rw [Trace.pushed, hprinted, List.nil_append, hresponses, ← List.append_assoc, hwhole, hpieces,
      hprinted, joined_cons, joined_frames, echoed_of_zero hidle, List.append_nil]
    rfl

theorem added_step {s s₁ : State} {t : Trace} (hstep : Iterated s s₁ t)
    (hle : s.controlpacket.bytesRecieved ≤ 4)
    (htext : t.printed ≠ [] → t.bytesRecieved = 0) : Added s s₁ t := by
  have hpacket := hstep.packet
  have hprinted : s.controlpacket.bytesRecieved ≠ 0 → t.printed = [] := by
    intro hne
    by_contra hsome
    exact hne (hstep.bytesRecieved ▸ htext hsome)
  cases hpop : t.popped with
  | none =>
    rw [hpop, assembled, settle_of_le hle, Prod.mk.injEq] at hpacket
    obtain ⟨hhandled, hsame⟩ := hpacket
    refine added_part hstep (Option.map_eq_none_iff.1 hhandled.symm) (hsame ▸ hle) ?_ ?_
    · rw [hpop]
      intro _ _ c hc
      cases hc
    · rw [hpop, ← hsame, Option.toList_none, List.append_nil, ite_self, List.append_nil]
      by_cases hzero : s.controlpacket.bytesRecieved = 0
      · rw [echoed_of_zero hzero, List.append_nil, List.nil_append]
      · rw [hprinted hzero, List.append_nil, List.nil_append]
  | some c =>
    rw [hpop, assembled] at hpacket
    by_cases hzero : s.controlpacket.bytesRecieved = 0
    · have hcount := assemblyStep_first hzero c
      have hle₁ : (assemblyStep s.controlpacket c).bytesRecieved ≤ 4 := by
        rw [hcount]
        split <;> decide
      rw [settle_of_le hle₁, Prod.mk.injEq] at hpacket
      obtain ⟨hhandled, hsame⟩ := hpacket
      refine added_part hstep (Option.map_eq_none_iff.1 hhandled.symm) (hsame ▸ hle₁) ?_ ?_
      · intro _ hidle b hb
        rw [← hsame, hcount] at hidle
        rw [hpop, Option.toList_some, List.mem_singleton] at hb
        rw [hb, isSync, beq_eq_false_iff_ne]
        intro hc
        rw [if_pos (show c = syncByte from hc)] at hidle
        exact absurd hidle (by decide)
      · rw [hpop, ← hsame, hcount, echoed_of_zero hzero, List.nil_append, Option.toList_some]
        by_cases hc : c = syncByte
        · have hone : ¬((1 : UInt8) = 0) := by decide
          rw [if_pos hc, if_neg fun h => hone h.2, List.append_nil, echoed, hcount, if_pos hc, hc]
          rfl
        · rw [if_neg hc, if_pos ⟨hzero, rfl⟩, echoed_of_zero (hcount.trans (if_neg hc)),
            List.append_nil]
    · have hcount := assemblyStep_next hle hzero c
      have htake := take_echoOf_next hle hzero c
      have hnat : (s.controlpacket.bytesRecieved + 1).toNat =
          s.controlpacket.bytesRecieved.toNat + 1 := by
        rcases le_four_cases hle with hb | hb | hb | hb | hb <;> rw [hb] <;> rfl
      by_cases hfour : s.controlpacket.bytesRecieved = 4
      · have hfive : (assemblyStep s.controlpacket c).bytesRecieved = 5 := by
          rw [hcount, hfour]
          rfl
        rw [settle, if_pos hfive, Prod.mk.injEq] at hpacket
        obtain ⟨u, hhandled, hu⟩ := Option.map_eq_some_iff.1 hpacket.1.symm
        have hidle : s₁.controlpacket.bytesRecieved = 0 := by rw [← hpacket.2]
        have hwhole : echoed s.controlpacket ++ [c] = echoOf u.controlpacket := by
          rw [← htake, hfour, hu]
          rfl
        exact added_whole hstep hhandled hidle (hprinted hzero) (by rw [hpop]; exact hwhole)
      · have hle₁ : (assemblyStep s.controlpacket c).bytesRecieved ≤ 4 := by
          rw [hcount]
          rcases le_four_cases hle with hb | hb | hb | hb | hb <;> rw [hb] at hfour ⊢ <;>
            first | decide | exact absurd rfl hfour
        rw [settle_of_le hle₁, Prod.mk.injEq] at hpacket
        obtain ⟨hhandled, hsame⟩ := hpacket
        refine added_part hstep (Option.map_eq_none_iff.1 hhandled.symm) (hsame ▸ hle₁)
          (fun hidle => absurd hidle hzero) ?_
        rw [hpop, ← hsame, hprinted hzero, if_neg fun h => hzero h.1, List.append_nil,
          List.append_nil, List.nil_append, Option.toList_some, ← htake, echoed, hcount, hnat]

/-! ## Runs -/

/-- The line behind a run is the pieces of its iterations, and the beginning of
a packet. -/
structure Lined (s s' : State) (ts : List Trace) : Prop where
  le : s'.controlpacket.bytesRecieved ≤ 4
  valid : ∀ p ∈ ts.flatMap piecesOf, p.Valid isSync 5
  bytes : echoed s.controlpacket ++ pushed ts =
    joined (ts.flatMap piecesOf) ++ echoed s'.controlpacket
  -- the pieces of an iteration are on the line with its bytes
  start : ∀ pre, pre <+: ts → (joined (pre.flatMap piecesOf)).length ≤
    (echoed s.controlpacket).length + (pushed pre).length

theorem run_lined {s s' : State} {events : List Event} {ts : List Trace}
    (hrun : run s events = some (s', ts)) (hle : s.controlpacket.bytesRecieved ≤ 4)
    (htexts : TextsBetween ts) : Lined s s' ts := by
  refine run_rule (motive := fun s ts s' => s.controlpacket.bytesRecieved ≤ 4 →
    TextsBetween ts → Lined s s' ts) ?_ ?_ ?_ hrun hle htexts
  · intro s hle _
    refine ⟨hle, by simp, ?_, ?_⟩
    · show echoed s.controlpacket ++ [] = [] ++ echoed s.controlpacket
      rw [List.append_nil, List.nil_append]
    · intro pre hpre
      rw [List.prefix_nil.1 hpre]
      exact Nat.zero_le _
  · intro s i ts s' ih hle htexts
    have hsame := (interrupt_frame s i).2.2
    rw [hsame] at ih
    obtain ⟨hle', hvalid, hbytes, hstart⟩ := ih hle htexts
    rw [hsame] at hbytes hstart
    exact ⟨hle', hvalid, hbytes, hstart⟩
  · intro s t s₁ ts s' hstep ih hle htexts
    have hone := added_step hstep hle (htexts t List.mem_cons_self)
    have hrest := ih hone.le fun u hu => htexts u (List.mem_cons_of_mem _ hu)
    have hpushed : ∀ us, pushed (t :: us) = t.pushed ++ pushed us := fun us => rfl
    have hlength := congrArg List.length hone.bytes
    simp only [List.length_append] at hlength
    refine ⟨hrest.le, ?_, ?_, ?_⟩
    · rw [List.flatMap_cons]
      intro p hp
      rcases List.mem_append.1 hp with hp | hp
      · exact hone.valid p hp
      · exact hrest.valid p hp
    · rw [hpushed, ← List.append_assoc, hone.bytes, List.append_assoc, hrest.bytes,
        List.flatMap_cons, joined_append, List.append_assoc]
    · intro pre hpre
      cases pre with
      | nil => exact Nat.zero_le _
      | cons u pre =>
        rw [List.cons_prefix_cons] at hpre
        obtain ⟨rfl, hpre⟩ := hpre
        have htail := hrest.start pre hpre
        rw [List.flatMap_cons, joined_append, hpushed, List.length_append, List.length_append]
        omega

/-- Of what a run has pushed, the host serves the frames of the pieces from the
first one on. -/
theorem Lined.served {F : Type} {odometry : Odometry F} {s s' : State} {ts : List Trace}
    (h : Lined s s' ts) (hzero : s.controlpacket.bytesRecieved = 0) {stream : List UInt8}
    {history : List MinosPacket} {m : Minotaur F} (hhost : Receives odometry stream history m)
    (hstream : stream <+: pushed ts) :
    history.map MinosPacket.bytes <+: exchanged ts ∧
      ∀ pre, pre <+: ts → (pushed pre).length < stream.length →
        exchanged pre <+: history.map MinosPacket.bytes := by
  have hbytes := h.bytes
  have hstart := h.start
  rw [echoed_of_zero hzero, List.nil_append] at hbytes
  rw [echoed_of_zero hzero, List.length_nil] at hstart
  have htail : (echoed s'.controlpacket).length < 5 := by
    have hlt : s'.controlpacket.bytesRecieved.toNat < 5 := by
      rcases le_four_cases h.le with hb | hb | hb | hb | hb <;> rw [hb] <;> decide
    rw [echoed, List.length_take]
    omega
  rw [hbytes] at hstream
  obtain ⟨hserved, hall⟩ := served_pieces (by decide) h.valid htail hstream
  rw [← hhost.served_eq, framesOf_piecesOf] at hserved
  refine ⟨hserved, ?_⟩
  rintro pre ⟨post, rfl⟩ hlong
  rw [hhost.served_eq, ← framesOf_piecesOf]
  apply hall
  · rw [List.flatMap_append]
    exact List.prefix_append ..
  · have := hstart pre (List.prefix_append ..)
    omega

/-- What a run has sent is what it has pushed, up to the bytes still in the
buffer. -/
theorem prefix_sent {s s' : State} {events : List Event} {ts : List Trace}
    (hrun : run s events = some (s', ts)) (hempty : s.txDataBuffer.contents = [])
    (hfull : ∀ t ∈ ts, t.txFull = false) : sent ts <+: pushed ts := by
  have htx := run_tx hrun hfull
  rw [hempty, List.nil_append] at htx
  exact ⟨_, htx⟩

/-- If every text falls between two packets and the transmit buffer never gets
full, the host serves the echoes and the responses of the iterations, in their
order and nothing else.  It has served those of all iterations whose bytes have
arrived, with one more. -/
theorem uplink_exact {F : Type} {odometry : Odometry F} {s s' : State} {events : List Event}
    {ts : List Trace} (hrun : run s events = some (s', ts))
    (hempty : s.txDataBuffer.contents = []) (hzero : s.controlpacket.bytesRecieved = 0)
    (hfull : ∀ t ∈ ts, t.txFull = false) (htexts : TextsBetween ts) {stream : List UInt8}
    {history : List MinosPacket} {m : Minotaur F} (hhost : Receives odometry stream history m)
    (hline : stream <+: sent ts) :
    history.map MinosPacket.bytes <+: exchanged ts ∧
      ∀ pre, pre <+: ts → (pushed pre).length < stream.length →
        exchanged pre <+: history.map MinosPacket.bytes := by
  have hlined := run_lined hrun (by rw [hzero]; decide) htexts
  exact hlined.served hzero hhost (hline.trans (prefix_sent hrun hempty hfull))

/-- What of a run the two examples look at. -/
structure Seen where
  sent : List UInt8
  exchanged : List (List UInt8)
  /-- Whether the run meets the hypotheses. -/
  meets : Bool
  polls : Bool
  deriving DecidableEq

def seen (ts : List Trace) : Seen where
  sent := sent ts
  exchanged := exchanged ts
  meets := ts.all fun t => t.txFull = false ∧ (t.printed = [] ∨ t.bytesRecieved = 0)
  polls := ts.all fun t => t.handled.all fun u =>
    u.controlpacket.command = cmdMotors ∨ u.controlpacket.command = cmdGetSensorData

theorem seen_meets {ts : List Trace} (h : (seen ts).meets = true) :
    (∀ t ∈ ts, t.txFull = false) ∧ TextsBetween ts := by
  simp only [seen, List.all_eq_true, decide_eq_true_iff] at h
  exact ⟨fun t ht => (h t ht).1, fun t ht => (h t ht).2.resolve_left⟩

/-- A first read of everything sent is served. -/
theorem receives_first {F : Type} (odometry : Odometry F) {block : List UInt8}
    (hclean : CleanRead (Minotaur.init odometry).ring ⟨block, false⟩) :
    ∃ r, recv odometry (fun _ => 100) ⟨block, false⟩ (Minotaur.init odometry) = some r ∧
      Receives odometry block r.served r.minotaur := by
  have hstart : Receives odometry [] [] (Minotaur.init odometry) := .start
  obtain ⟨r, hrecv, -⟩ := hstart.recv_isSome (fun _ => 100) hclean
  exact ⟨r, hrecv, hstart.recv hclean hrecv⟩

/-- A debug text, a battery request and the first byte of the next packet: the
host serves the request and the response. -/
theorem uplink_exact_battery :
    ∃ s' ts r, run State.init textBefore = some (s', ts) ∧
      recv restOdometry (fun _ => 100) ⟨sent ts, false⟩ (Minotaur.init restOdometry) = some r ∧
      r.served.map MinosPacket.bytes = [batteryRequest.bytes, batteryResponse] := by
  have hrun : (run State.init textBefore).map (fun r => seen r.2) = some
      ⟨zeroText ++ batteryRequest.bytes ++ batteryResponse ++ [0xAA],
        [batteryRequest.bytes, batteryResponse], true, false⟩ := by decide +kernel
  have hfive : (run State.init textBefore).map (fun r =>
      ((pushed (r.2.take 5)).length, exchanged (r.2.take 5))) =
        some (40, [batteryRequest.bytes, batteryResponse]) := by decide +kernel
  obtain ⟨⟨s', ts⟩, hts, hseen⟩ := Option.map_eq_some_iff.1 hrun
  rw [hts, Option.map_some, Option.some.injEq, Prod.mk.injEq] at hfive
  have hsent : sent ts = _ := congrArg Seen.sent hseen
  have hall : exchanged ts = _ := congrArg Seen.exchanged hseen
  obtain ⟨hfull, htexts⟩ := seen_meets (congrArg Seen.meets hseen)
  obtain ⟨r, hrecv, hhost⟩ := @receives_first Int restOdometry (sent ts)
    (by rw [hsent]; decide +kernel)
  refine ⟨s', ts, r, hts, hrecv, ?_⟩
  obtain ⟨hserved, hlong⟩ := uplink_exact hts rfl rfl hfull htexts hhost List.prefix_rfl
  rw [hall] at hserved
  have hback := hlong (ts.take 5) (List.take_prefix ..) (by rw [hfive.1, hsent]; decide)
  rw [hfive.2] at hback
  exact hserved.eq_of_length (Nat.le_antisymm hserved.length_le hback.length_le)

/-! ## The state of the host -/

/-- The microcontroller has answered a poll in this state. -/
def Polled (ts : List Trace) (u : State) : Prop :=
  ∃ t ∈ ts, t.handled = some u ∧ u.controlpacket.command = cmdGetSensorData

/-- The sensor values of a state are those of answers. -/
structure Measured {F : Type} (ts : List Trace) (c : MinotaurState F) : Prop where
  irBank : ∃ u, Polled ts u ∧ c.irBank = (pollOf u).irPacket.udata8Fst
  leftEncoder : ∃ u, Polled ts u ∧ c.leftEncoder = (pollOf u).leftPacket.udata16
  rightEncoder : ∃ u, Polled ts u ∧ c.rightEncoder = (pollOf u).rightPacket.udata16

/-- The host sends commands for the motors and polls. -/
def HostCommands (ts : List Trace) : Prop :=
  ∀ t ∈ ts, ∀ u, t.handled = some u →
    u.controlpacket.command = cmdMotors ∨ u.controlpacket.command = cmdGetSensorData

/-- A packet with sensor data is one of the answers to a poll. -/
theorem answer_of_exchange {u : State} {p : MinosPacket} (hmem : p.bytes ∈ exchange u)
    (hcommand : u.controlpacket.command = cmdMotors ∨
      u.controlpacket.command = cmdGetSensorData)
    (hmotors : p.command ≠ cmdMotors) (hpoll : p.command ≠ cmdGetSensorData) :
    u.controlpacket.command = cmdGetSensorData ∧
      (p = (pollOf u).irPacket ∨ p = (pollOf u).leftPacket ∨ p = (pollOf u).rightPacket) := by
  have hthird : p.bytes[2]? = some p.command := rfl
  rcases List.mem_cons.1 hmem with hecho | hresponse
  · rw [hecho] at hthird
    have hsame : u.controlpacket.command = p.command := Option.some.inj hthird
    rcases hcommand with hc | hc
    · exact absurd (hsame.symm.trans hc) hmotors
    · exact absurd (hsame.symm.trans hc) hpoll
  · rw [responses] at hresponse
    split_ifs at hresponse with hcomplete hget hright hleft hbattery hsensor hdrive
    · simp only [List.mem_cons, List.not_mem_nil, or_false] at hresponse
      refine ⟨hget, ?_⟩
      rcases hresponse with hir | hleft | hright
      · exact Or.inl (MinosPacket.bytes_injective hir)
      · exact Or.inr (Or.inl (MinosPacket.bytes_injective hleft))
      · exact Or.inr (Or.inr (MinosPacket.bytes_injective hright))
    · rcases hcommand with hc | hc <;> rw [hright] at hc <;> exact absurd hc (by decide)
    · rcases hcommand with hc | hc <;> rw [hleft] at hc <;> exact absurd hc (by decide)
    · rcases hcommand with hc | hc <;> rw [hbattery] at hc <;> exact absurd hc (by decide)
    · rcases hcommand with hc | hc <;> rw [hsensor] at hc <;> exact absurd hc (by decide)
    · rw [List.mem_singleton] at hresponse
      rw [hresponse] at hthird
      exact absurd (Option.some.inj hthird).symm hmotors
    · cases hresponse
    · cases hresponse

theorem lastOf_answer {ts : List Trace} (hcommands : HostCommands ts) {history : List MinosPacket}
    (hserved : history.map MinosPacket.bytes <+: exchanged ts) {command : UInt8}
    (hmotors : command ≠ cmdMotors) (hpoll : command ≠ cmdGetSensorData) {p : MinosPacket}
    (hlast : lastOf command history = some p) :
    ∃ u, Polled ts u ∧ (command = 0xB1 → p = (pollOf u).irPacket) ∧
      (command = 0xB7 → p = (pollOf u).leftPacket) ∧
      (command = 0xB6 → p = (pollOf u).rightPacket) := by
  have hmem := List.mem_of_getLast? hlast
  rw [List.mem_filter, decide_eq_true_iff] at hmem
  obtain ⟨hp, hcommand⟩ := hmem
  have hexchanged := hserved.subset (List.mem_map_of_mem hp)
  obtain ⟨t, ht, hframe⟩ := List.mem_flatMap.1 hexchanged
  obtain ⟨u, hu, hframe⟩ := List.mem_flatMap.1 hframe
  have hhandled : t.handled = some u := Option.mem_toList.1 hu
  obtain ⟨hget, hanswer⟩ := answer_of_exchange hframe (hcommands t ht u hhandled)
    (hcommand ▸ hmotors) (hcommand ▸ hpoll)
  refine ⟨u, ⟨t, ht, hhandled, hget⟩, ?_⟩
  -- the three answers have different commands
  have hir : (pollOf u).irPacket.command = 0xB1 := rfl
  have hleft : (pollOf u).leftPacket.command = 0xB7 := rfl
  have hright : (pollOf u).rightPacket.command = 0xB6 := rfl
  rw [← hcommand]
  rcases hanswer with rfl | rfl | rfl
  · rw [hir]
    exact ⟨fun _ => rfl, fun h => absurd h (by decide), fun h => absurd h (by decide)⟩
  · rw [hleft]
    exact ⟨fun h => absurd h (by decide), fun _ => rfl, fun h => absurd h (by decide)⟩
  · rw [hright]
    exact ⟨fun h => absurd h (by decide), fun h => absurd h (by decide), fun _ => rfl⟩

/-- A call commits a state, or the current state stays. -/
theorem committed_or_kept {F : Type} {odometry : Odometry F} {clock : Nat → UInt32}
    {call : ReadCall} {m : Minotaur F} {r : RecvResult F}
    (hrecv : recv odometry clock call m = some r) :
    (∃ c, r.committed = some c ∧ r.minotaur.currentState = c) ∨
      r.minotaur.currentState = m.currentState := by
  obtain ⟨r', hrecv', houtcome⟩ := recv_outcome odometry clock call m
  obtain rfl : r = r' := Option.some.inj (hrecv.symm.trans hrecv')
  by_cases hmade : ((m.ring.takeIn call).2 &&
      (applyAll clock 0 m.nextState r.served).sensorsComplete) = true
  · by_cases hpass : passes odometry m.currentState (applyAll clock 0 m.nextState r.served) = true
    · have haccepted := houtcome.accepted hmade hpass
      exact Or.inl ⟨_, haccepted.2.2, haccepted.1⟩
    · exact Or.inr (houtcome.rejected hmade hpass).1
  · exact Or.inr (houtcome.idle hmade).1

/-- What the host has committed is what the microcontroller has answered. -/
theorem measured_of_served {F : Type} {odometry : Odometry F} {ts : List Trace}
    (hcommands : HostCommands ts) {stream : List UInt8} {history : List MinosPacket}
    {m : Minotaur F} (hhost : Receives odometry stream history m)
    (hserved : history.map MinosPacket.bytes <+: exchanged ts) :
    m.currentState = MinotaurState.fresh odometry ∨ Measured ts m.currentState := by
  induction hhost with
  | start => exact Or.inl rfl
  | @recv stream history m clock call r h hclean hrecv ih =>
    have hbefore : history.map MinosPacket.bytes <+: exchanged ts := by
      rw [List.map_append] at hserved
      exact (List.prefix_append ..).trans hserved
    rcases committed_or_kept hrecv with ⟨c, hc, hcurrent⟩ | hkept
    · obtain ⟨ir, left, right, hir, hleft, hright, hirBank, hleftEncoder, hrightEncoder⟩ :=
        h.committed hclean hrecv hc
      rw [hcurrent]
      refine Or.inr ⟨?_, ?_, ?_⟩
      · obtain ⟨u, hpolled, hanswer, -, -⟩ :=
          lastOf_answer hcommands hserved (by decide) (by decide) hir
        exact ⟨u, hpolled, hanswer rfl ▸ hirBank⟩
      · obtain ⟨u, hpolled, -, hanswer, -⟩ :=
          lastOf_answer hcommands hserved (by decide) (by decide) hleft
        exact ⟨u, hpolled, hanswer rfl ▸ hleftEncoder⟩
      · obtain ⟨u, hpolled, -, -, hanswer⟩ :=
          lastOf_answer hcommands hserved (by decide) (by decide) hright
        exact ⟨u, hpolled, hanswer rfl ▸ hrightEncoder⟩
    · rw [hkept]
      exact ih hbefore

/-- If the host sends commands for the motors and polls, the sensor values that
the robot reports are those of the start or of answered polls. -/
theorem state_measured {F : Type} {odometry : Odometry F} {s s' : State} {events : List Event}
    {ts : List Trace} (hrun : run s events = some (s', ts))
    (hempty : s.txDataBuffer.contents = []) (hzero : s.controlpacket.bytesRecieved = 0)
    (hfull : ∀ t ∈ ts, t.txFull = false) (htexts : TextsBetween ts) (hcommands : HostCommands ts)
    {stream : List UInt8} {history : List MinosPacket} {m : Minotaur F}
    (hhost : Receives odometry stream history m) (hline : stream <+: sent ts) :
    m.currentState = MinotaurState.fresh odometry ∨ Measured ts m.currentState := by
  have hlined := run_lined hrun (by rw [hzero]; decide) htexts
  have hserved := hlined.served hzero hhost (hline.trans (prefix_sent hrun hempty hfull))
  exact measured_of_served hcommands hhost hserved.1

/-- A poll of a robot whose right wheel has gone back one tick. -/
def backTick : List Event :=
  [.interrupt (.t3 ⟨true, false, true, true⟩)] ++
    arrivals (MinosPacket.bytes ⟨syncByte, 7, cmdGetSensorData, 0, 0⟩ ++ [0xAA]) ++ flush

theorem backTick_run :
    ∃ s' ts, run State.init backTick = some (s', ts) ∧
      sent ts = [0xAA, 7, 0xB0, 0, 0, 0xAA, 7, 0xB1, 26, 0, 0xAA, 7, 0xB7, 0, 0, 0xAA, 7, 0xB6,
        255, 255, 0xAA] ∧
      (∀ t ∈ ts, t.txFull = false) ∧ TextsBetween ts ∧ HostCommands ts := by
  have hrun : (run State.init backTick).map (fun r => seen r.2) = some
      ⟨[0xAA, 7, 0xB0, 0, 0, 0xAA, 7, 0xB1, 26, 0, 0xAA, 7, 0xB7, 0, 0, 0xAA, 7, 0xB6, 255, 255,
          0xAA],
        [[0xAA, 7, 0xB0, 0, 0], [0xAA, 7, 0xB1, 26, 0], [0xAA, 7, 0xB7, 0, 0],
          [0xAA, 7, 0xB6, 255, 255]], true, true⟩ := by decide +kernel
  obtain ⟨⟨s', ts⟩, hts, hseen⟩ := Option.map_eq_some_iff.1 hrun
  obtain ⟨hfull, htexts⟩ := seen_meets (congrArg Seen.meets hseen)
  refine ⟨s', ts, hts, congrArg Seen.sent hseen, hfull, htexts, ?_⟩
  have hpolls : (seen ts).polls = true := congrArg Seen.polls hseen
  simp only [seen, List.all_eq_true, Option.all_eq_true, decide_eq_true_iff] at hpolls
  exact hpolls

/-- The host commits the tick that the microcontroller has counted. -/
theorem state_measured_backTick :
    ∃ s' ts r, run State.init backTick = some (s', ts) ∧
      recv restOdometry (fun _ => 100) ⟨sent ts, false⟩ (Minotaur.init restOdometry) = some r ∧
      r.minotaur.currentState.rightEncoder = 0xFFFF ∧ Measured ts r.minotaur.currentState := by
  obtain ⟨s', ts, hts, hsent, hfull, htexts, hcommands⟩ := backTick_run
  obtain ⟨r, hrecv, hhost⟩ := @receives_first Int restOdometry (sent ts)
    (by rw [hsent]; decide +kernel)
  have hcommitted : (recv restOdometry (fun _ => 100) ⟨sent ts, false⟩
      (Minotaur.init restOdometry)).map (fun r => r.minotaur.currentState.rightEncoder) =
        some 0xFFFF := by
    rw [hsent]
    decide +kernel
  rw [hrecv, Option.map_some, Option.some.injEq] at hcommitted
  refine ⟨s', ts, r, hts, hrecv, hcommitted, ?_⟩
  have hstate := state_measured hts rfl rfl hfull htexts hcommands hhost List.prefix_rfl
  refine hstate.resolve_left fun hfresh => ?_
  rw [hfresh] at hcommitted
  exact absurd hcommitted (by decide)

end MinotaurRobot.Link
