import MinotaurRobot.Host.Reachable
import MinotaurRobot.Link.Downlink

/-!
# The link from the microcontroller to the host

The microcontroller puts three kinds of bytes on the line: the echo of every
byte it pops, the responses, and the debug text.  The host finds packets by
their sync byte.  A text is longer than a packet and has no sync byte, so it
always brings the host to a packet boundary (`residue_debugText`).  It does
the same when it falls into the echo of a packet, and then a sync byte among
the remaining echo bytes starts a packet that swallows the next response.

`quiet` is the condition that this does not happen.  `uplink_serves` says that
in every run with this condition the host serves every response, where it is
and as it is.
-/

namespace MinotaurRobot.Link

open MinotaurRobot.Host MinotaurRobot.Mcu Lib.Framing

/-! ## The debug text -/

theorem printIntLoop_noSync (rounds num : Nat) {string : List UInt8}
    (h : ∀ c ∈ string, isSync c = false) : ∀ c ∈ printIntLoop rounds num string, isSync c = false := by
  induction rounds generalizing num string with
  | zero => exact h
  | succ rounds ih =>
    unfold printIntLoop
    split
    · exact h
    · refine ih (num / 10) ?_
      intro c hc
      rcases List.mem_cons.1 hc with rfl | hc
      · have hdigit : num % 10 < 10 := Nat.mod_lt _ (by decide)
        generalize num % 10 = digit at hdigit
        have hall : ∀ d < 10, isSync (UInt8.ofNat (48 + d)) = false := by decide
        exact hall digit hdigit
      · exact h c hc

theorem printLine_noSync {label : UInt8} (hlabel : isSync label = false) (sensor : Int) :
    ∀ c ∈ printLine label sensor, isSync c = false := by
  intro c hc
  rw [printLine, List.mem_append, List.mem_append] at hc
  rcases hc with (hc | hc) | hc
  · simp only [List.mem_cons, List.not_mem_nil, or_false] at hc
    rcases hc with rfl | rfl | rfl
    · exact hlabel
    · decide
    · decide
  · rw [printIntString] at hc
    split at hc
    · rw [List.mem_singleton] at hc
      rw [hc]
      decide
    · exact printIntLoop_noSync 5 _ (by simp) c hc
  · simp only [List.mem_cons, List.not_mem_nil, or_false] at hc
    rcases hc with rfl | rfl <;> decide

theorem debugText_noSync (v : Sensors) : ∀ c ∈ debugText v, isSync c = false := by
  intro c hc
  simp only [debugText, List.mem_append] at hc
  rcases hc with (((hc | hc) | hc) | hc) | hc
  all_goals exact printLine_noSync (by decide) _ c hc

theorem debugText_length (v : Sensors) : 5 ≤ (debugText v).length := by
  simp only [debugText, printLine, List.length_append, List.length_cons]
  omega

/-- Behind a debug text the host is at a packet boundary. -/
theorem residue_debugText (v : Sensors) (before : List UInt8) :
    residue isSync 5 0 (before ++ debugText v) = 0 := by
  have hlt := @residue_lt UInt8 isSync 5 0 (by decide) before
  have hlen := debugText_length v
  rw [residue_append, (no_sync (debugText_noSync v) _ 0).2]
  omega

/-! ## The condition -/

/-- The bytes of the current packet that have been echoed since the last debug
text, behind one more iteration. -/
def echoTail (tail : List UInt8) (t : Trace) : List UInt8 :=
  let tail := if t.printed = [] then tail else []
  match t.popped with
  | none => tail
  | some c =>
    if t.bytesRecieved = 0 then if c = syncByte then [c] else []
    else tail ++ [c]

/-- No debug text has fallen into the echo of a packet, or the echo bytes
behind the text contain no sync byte. -/
def quietTail (tail : List UInt8) : Bool := tail.length == 5 || !tail.contains syncByte

/-- Whenever a packet is complete, its echo is quiet. -/
def quiet : List UInt8 → List Trace → Bool
  | _, [] => true
  | tail, t :: ts =>
    let tail := echoTail tail t
    if t.handled.isSome then quietTail tail && quiet [] ts else quiet tail ts

/-- The responses that the main loop queues, with their offsets in the bytes
it pushes.  `offset` is the number of bytes pushed before. -/
def queued : Nat → List Trace → List (Nat × List UInt8)
  | _, [] => []
  | offset, t :: ts =>
    placed 5 (offset + t.printed.length + t.popped.toList.length) t.responses ++
      queued (offset + t.pushed.length) ts

/-! ## One iteration -/

/-- What the echo of the current packet says about the host: `tail` is
`echoTail`, `count` is `bytesRecieved`, and `rest` is what the host still
expects of an open packet. -/
structure Echoed (tail : List UInt8) (count : UInt8) (rest : Nat) : Prop where
  le : count ≤ 4
  rest_eq : rest = residue isSync 5 0 tail
  idle : count = 0 → tail = []
  length_le : tail.length ≤ count.toNat
  whole : tail.length = count.toNat → count ≠ 0 → ∃ xs, tail = syncByte :: xs

theorem Echoed.start : Echoed [] 0 0 :=
  ⟨by decide, rfl, fun _ => rfl, Nat.le_refl _, fun _ h => absurd rfl h⟩

/-- A debug text starts the tail anew and brings the host to a packet
boundary. -/
theorem Echoed.print {tail before text : List UInt8} {count : UInt8}
    (h : Echoed tail count (residue isSync 5 0 before))
    (htext : text = [] ∨ ∃ v, text = debugText v) :
    Echoed (if text = [] then tail else []) count (residue isSync 5 0 (before ++ text)) := by
  rcases htext with rfl | ⟨v, rfl⟩
  · rw [if_pos rfl, List.append_nil]
    exact h
  · have hne : debugText v ≠ [] := List.length_pos_iff.1 (by have := debugText_length v; omega)
    rw [if_neg hne, residue_debugText]
    refine ⟨h.le, rfl, fun _ => rfl, Nat.zero_le _, ?_⟩
    intro hzero hcount
    exact absurd (UInt8.toNat_inj.1 hzero.symm) hcount

/-- The echo of a whole packet leaves the host at a packet boundary, exactly
if it is quiet. -/
theorem residue_eq_zero_iff_quietTail {tail : List UInt8} (hlen : tail.length ≤ 5)
    (hwhole : tail.length = 5 → ∃ xs, tail = syncByte :: xs) :
    residue isSync 5 0 tail = 0 ↔ quietTail tail = true := by
  rw [quietTail, Bool.or_eq_true, beq_iff_eq, Bool.not_eq_true', List.contains_eq_mem,
    decide_eq_false_iff_not]
  constructor
  · intro hzero
    by_contra hloud
    rw [not_or, not_not] at hloud
    exact residue_ne_zero (by omega) ⟨syncByte, hloud.2, by decide⟩ hzero
  · rintro (hfive | hno)
    · obtain ⟨xs, hxs⟩ := hwhole hfive
      have hframe : IsFrame isSync 5 tail := ⟨hfive, syncByte, xs, hxs, by decide⟩
      exact (hframe.read 0).2
    · have hnone : ∀ c ∈ tail, isSync c = false := by
        intro c hc
        rw [isSync, beq_eq_false_iff_ne]
        rintro rfl
        exact hno hc
      rw [(no_sync hnone 0 0).2, Nat.zero_sub]

/-- A popped byte goes into the tail. -/
theorem Echoed.pop {tail before : List UInt8} {p : ControlData}
    (h : Echoed tail p.bytesRecieved (residue isSync 5 0 before)) (c : UInt8) :
    let tail' := if p.bytesRecieved = 0 then if c = syncByte then [c] else [] else tail ++ [c]
    ((assemblyStep p c).bytesRecieved ≠ 5 ∧
        Echoed tail' (assemblyStep p c).bytesRecieved (residue isSync 5 0 (before ++ [c]))) ∨
      ((assemblyStep p c).bytesRecieved = 5 ∧
        (residue isSync 5 0 (before ++ [c]) = 0 ↔ quietTail tail' = true)) := by
  intro tail'
  have hle := h.le
  by_cases hzero : p.bytesRecieved = 0
  · have hidle := h.idle hzero
    have hrest := h.rest_eq
    rw [hidle] at hrest
    have htail' : tail' = if c = syncByte then [c] else [] := if_pos hzero
    have hresidue : residue isSync 5 0 (before ++ [c]) = residue isSync 5 0 tail' := by
      rw [residue_append, hrest, htail']
      split
      · rfl
      · rename_i hc
        rw [residue, residue, if_neg (by simpa [isSync, syncByte] using hc)]
        rfl
    have hcount := assemblyStep_first hzero c
    refine Or.inl ⟨?_, ?_, hresidue, ?_, ?_, ?_⟩
    all_goals rw [hcount]
    · split <;> decide
    · split <;> decide
    · intro hnone
      rw [htail', if_neg]
      rintro rfl
      exact absurd hnone (by decide)
    · rw [htail']
      split
      · exact Nat.le_refl 1
      · exact Nat.le_refl 0
    · intro hlen hne
      split at hne
      · rename_i hc
        exact ⟨[], by rw [htail', if_pos hc, hc]⟩
      · exact absurd rfl hne
  · have htail' : tail' = tail ++ [c] := if_neg hzero
    have hlen' : tail'.length = tail.length + 1 := by
      rw [htail', List.length_append, List.length_singleton]
    have hresidue : residue isSync 5 0 (before ++ [c]) = residue isSync 5 0 tail' := by
      rw [residue_append, h.rest_eq, htail', residue_append]
    have hnext : (p.bytesRecieved + 1).toNat = p.bytesRecieved.toNat + 1 := by
      rcases le_four_cases hle with hb | hb | hb | hb | hb <;> rw [hb] <;> rfl
    have hlength := h.length_le
    have hwhole : tail'.length = p.bytesRecieved.toNat + 1 → ∃ xs, tail' = syncByte :: xs := by
      intro hlen
      obtain ⟨xs, hxs⟩ := h.whole (by omega) hzero
      exact ⟨xs ++ [c], by rw [htail', hxs, List.cons_append]⟩
    rw [assemblyStep_next hle hzero]
    by_cases hfour : p.bytesRecieved = 4
    · rw [hfour] at hwhole hlength ⊢
      have hfive : tail'.length ≤ 5 := by
        rw [hlen']
        exact Nat.succ_le_succ hlength
      rw [hresidue]
      exact Or.inr ⟨rfl, residue_eq_zero_iff_quietTail hfive hwhole⟩
    · refine Or.inl ⟨?_, ?_, hresidue, ?_, by omega, fun hlen _ => hwhole (by omega)⟩
      · rcases le_four_cases hle with hb | hb | hb | hb | hb <;> rw [hb] at hfour ⊢ <;>
          first | decide | exact absurd rfl hfour
      · rcases le_four_cases hle with hb | hb | hb | hb | hb <;> rw [hb] at hfour ⊢ <;>
          first | decide | exact absurd rfl hfour
      · intro hnone
        have := congrArg UInt8.toNat hnone
        rw [hnext] at this
        exact absurd this (Nat.succ_ne_zero _)

/-- One iteration keeps `Echoed`, or completes a packet, and then the host is
at a packet boundary exactly if the echo was quiet. -/
theorem Echoed.step {s s₁ : State} {t : Trace} (hstep : Iterated s s₁ t)
    {tail before : List UInt8}
    (h : Echoed tail s.controlpacket.bytesRecieved (residue isSync 5 0 before)) :
    (t.handled = none ∧
        Echoed (echoTail tail t) s₁.controlpacket.bytesRecieved
          (residue isSync 5 0 (before ++ t.printed ++ t.popped.toList))) ∨
      (t.handled.isSome = true ∧ s₁.controlpacket.bytesRecieved = 0 ∧
        (residue isSync 5 0 (before ++ t.printed ++ t.popped.toList) = 0 ↔
          quietTail (echoTail tail t) = true)) := by
  have hprint := h.print hstep.printed
  have hpacket := hstep.packet
  have hbytes := hstep.bytesRecieved
  cases hpop : t.popped with
  | none =>
    rw [hpop, assembled, settle_of_le h.le, Prod.mk.injEq] at hpacket
    have htail : echoTail tail t = if t.printed = [] then tail else [] := by
      rw [echoTail, hpop]
    rw [Option.toList_none, List.append_nil, htail, ← hpacket.2]
    exact Or.inl ⟨Option.map_eq_none_iff.1 hpacket.1.symm, hprint⟩
  | some c =>
    have htail : echoTail tail t = if s.controlpacket.bytesRecieved = 0 then
        if c = syncByte then [c] else []
        else (if t.printed = [] then tail else []) ++ [c] := by
      rw [echoTail, hpop, ← hbytes]
    rw [hpop, assembled, settle] at hpacket
    rw [Option.toList_some, htail]
    rcases hprint.pop c with ⟨hne, hechoed⟩ | ⟨hfive, hquiet⟩
    · rw [if_neg hne, Prod.mk.injEq] at hpacket
      rw [← hpacket.2]
      exact Or.inl ⟨Option.map_eq_none_iff.1 hpacket.1.symm, hechoed⟩
    · rw [if_pos hfive, Prod.mk.injEq] at hpacket
      refine Or.inr ⟨?_, by rw [← hpacket.2], hquiet⟩
      rw [← Option.isSome_map, ← hpacket.1]
      rfl

/-- The host does not find a response behind an echo that is not quiet,
whatever follows. -/
theorem Echoed.lost {s s₁ : State} {t : Trace} (hstep : Iterated s s₁ t)
    {tail before : List UInt8}
    (h : Echoed tail s.controlpacket.bytesRecieved (residue isSync 5 0 before))
    (hhandled : t.handled.isSome = true) (hloud : quietTail (echoTail tail t) = false)
    (rest : List UInt8) :
    let shown := before ++ t.printed ++ t.popped.toList
    shown.length ∉ starts isSync 5 0 0 (shown ++ rest) := by
  intro shown hfound
  rcases h.step hstep with ⟨hnone, -⟩ | ⟨-, -, hboundary⟩
  · rw [hnone] at hhandled
    exact absurd hhandled (by decide)
  · have hopen : residue isSync 5 0 shown ≠ 0 := by
      rw [ne_eq, hboundary, hloud]
      decide
    rw [starts_append, List.mem_append] at hfound
    rcases hfound with hfound | hfound
    · have := starts_mem_bounds hfound
      omega
    · have := starts_mem_bounds hfound
      omega

/-- The responses of one iteration are frames. -/
theorem responses_isFrame (t : Trace) : ∀ r ∈ t.responses, IsFrame isSync 5 r := by
  intro r hr
  rw [Trace.responses] at hr
  split at hr
  · simp at hr
  · obtain ⟨command, d1, d2, rfl⟩ := mem_responses hr
    exact ⟨rfl, syncByte, _, rfl, by decide⟩

/-- One iteration with a quiet echo: its responses are found, and the next
iteration can go on. -/
theorem Echoed.responses {s s₁ : State} {t : Trace} (hstep : Iterated s s₁ t)
    {tail before : List UInt8} {ts : List Trace} (hquiet : quiet tail (t :: ts) = true)
    (h : Echoed tail s.controlpacket.bytesRecieved (residue isSync 5 0 before))
    (rest : List UInt8) :
    let shown := before ++ t.printed ++ t.popped.toList
    (placed 5 shown.length t.responses).Sublist
        ((starts isSync 5 (residue isSync 5 0 shown) shown.length t.responses.flatten).map
          (located 5 (shown ++ (t.responses.flatten ++ rest)))) ∧
      ∃ tail', quiet tail' ts = true ∧ Echoed tail' s₁.controlpacket.bytesRecieved
        (residue isSync 5 0 (shown ++ t.responses.flatten)) := by
  intro shown
  rw [quiet] at hquiet
  rcases h.step hstep with ⟨hnone, hechoed⟩ | ⟨hsome, hzero, hboundary⟩
  · have hresponses : t.responses = [] := by rw [Trace.responses, hnone]
    rw [hnone] at hquiet
    rw [hresponses, List.flatten_nil, List.append_nil]
    exact ⟨List.nil_sublist _, echoTail tail t, hquiet, hechoed⟩
  · rw [if_pos hsome, Bool.and_eq_true] at hquiet
    have hclosed : residue isSync 5 0 shown = 0 := hboundary.2 hquiet.1
    clear_value shown
    have hframes := responses_isFrame t
    rw [placed_eq hframes shown rest, residue_append, hclosed, (read_frames hframes 0).2, hzero]
    exact ⟨List.Sublist.refl _, [], hquiet.2, .start⟩

/-! ## Runs -/

/-- The responses of a quiet run are among the frames that the host finds in
the bytes pushed. -/
theorem queued_sublist {s s' : State} {events : List Event} {ts : List Trace}
    (hrun : run s events = some (s', ts)) {tail before : List UInt8}
    (h : Echoed tail s.controlpacket.bytesRecieved (residue isSync 5 0 before))
    (hquiet : quiet tail ts = true) :
    (queued before.length ts).Sublist
      ((starts isSync 5 (residue isSync 5 0 before) before.length (pushed ts)).map
        (located 5 (before ++ pushed ts))) := by
  refine run_rule (motive := fun s ts _ => ∀ tail before : List UInt8,
    Echoed tail s.controlpacket.bytesRecieved (residue isSync 5 0 before) →
    quiet tail ts = true →
    (queued before.length ts).Sublist
      ((starts isSync 5 (residue isSync 5 0 before) before.length (pushed ts)).map
        (located 5 (before ++ pushed ts)))) ?_ ?_ ?_ hrun tail before h hquiet
  · intro s tail before _ _
    exact List.nil_sublist _
  · intro s i ts s' ih tail before h hquiet
    rw [(interrupt_frame s i).2.2] at ih
    exact ih tail before h hquiet
  · intro s t s₁ ts s' hstep ih tail before h hquiet
    obtain ⟨hfound, tail', hquiet', hechoed⟩ := h.responses hstep hquiet (pushed ts)
    have htail := ih tail' _ hechoed hquiet'
    have hcons : pushed (t :: ts) =
        (t.printed ++ t.popped.toList) ++ (t.responses.flatten ++ pushed ts) := by
      simp [pushed, Trace.pushed]
    have hoffset : before.length + t.pushed.length =
        (before ++ t.printed ++ t.popped.toList ++ t.responses.flatten).length := by
      simp only [Trace.pushed, List.length_append]
      omega
    have hshown : before.length + t.printed.length + t.popped.toList.length =
        (before ++ t.printed ++ t.popped.toList).length := by
      rw [List.length_append, List.length_append]
    rw [queued, hoffset, hshown, hcons, starts_append, starts_append _ _ t.responses.flatten,
      List.map_append, List.map_append, ← residue_append, ← residue_append,
      ← List.append_assoc before, ← List.append_assoc before]
    have hbefore : before.length + (t.printed ++ t.popped.toList).length =
        (before ++ t.printed ++ t.popped.toList).length := by
      simp only [List.length_append]
      omega
    rw [hbefore, ← List.length_append]
    refine List.Sublist.trans ?_ (List.sublist_append_right _ _)
    refine hfound.append ?_
    rw [List.append_assoc _ _ (pushed ts)] at htail
    exact htail

/-- The microcontroller runs with a transmit buffer that never gets full, and
the host reads what it has sent.  If every packet is echoed quietly, the
packets that the host serves, with their offsets in the stream, contain every
response that has at least one byte behind it: in order, once (the offsets
increase), and with its own bytes. -/
theorem uplink_serves {F : Type} {odometry : Odometry F} {s s' : State} {events : List Event}
    {ts : List Trace} (hrun : run s events = some (s', ts))
    (hempty : s.txDataBuffer.contents = []) (hzero : s.controlpacket.bytesRecieved = 0)
    (hfull : ∀ t ∈ ts, t.txFull = false) (hquiet : quiet [] ts = true) {stream : List UInt8}
    {history : List MinosPacket} {m : Minotaur F} (hhost : Receives odometry stream history m)
    (hline : stream <+: sent ts) :
    ∃ served : List (Nat × List UInt8),
      history.map MinosPacket.bytes = served.map Prod.snd ∧
      (∀ q ∈ served, q.2 = frameAt 5 stream q.1) ∧
      served.Pairwise (fun q q' => q.1 < q'.1) ∧
      ((queued 0 ts).filter fun q => q.1 + 5 < stream.length).Sublist served := by
  have htx := run_tx hrun hfull
  rw [hempty, List.nil_append] at htx
  have hstream : stream <+: pushed ts := hline.trans ⟨_, htx⟩
  refine ⟨(complete isSync 5 stream).map (located 5 stream), ?_, ?_, ?_, ?_⟩
  · rw [List.map_map, hhost.served_eq]
    rfl
  · intro q hq
    obtain ⟨o, _, rfl⟩ := List.mem_map.1 hq
    rfl
  · exact List.pairwise_map.2 ((starts_pairwise 0 0 stream).filter _)
  · have hstart : Echoed [] s.controlpacket.bytesRecieved (residue isSync 5 0 []) := by
      rw [hzero]
      exact .start
    have hfound := queued_sublist hrun hstart hquiet
    rw [← located_filter hstream]
    exact hfound.filter _

/-! ## A text in the echo of a packet -/

/-- Enough iterations to send what has been pushed. -/
def flush : List Event :=
  (List.replicate 40 [Event.interrupt .u1tx, .iterate (hwOfByte 0)]).flatten

/-- A battery request behind a debug text, and the first byte of the next
packet. -/
def textBefore : List Event :=
  [.interrupt .t4] ++ arrivals (batteryRequest.bytes ++ [0xAA]) ++ flush

/-- The same with the debug text behind the first byte of the request. -/
def textInside : List Event :=
  arrivals [0xAA] ++ [.interrupt .t4] ++ arrivals (batteryRequest.bytes.drop 1 ++ [0xAA]) ++
    flush

/-- The debug text of a robot whose sensors read zero. -/
def zeroText : List UInt8 := debugText ⟨0, 0, 0, 0, 0⟩

/-- What of a run the two examples look at. -/
def uplinkOf (events : List Event) :
    Option (List UInt8 × List (Nat × List UInt8) × Bool × Bool) :=
  (run State.init events).map fun r =>
    (sent r.2, queued 0 r.2, r.2.all fun t => !t.txFull, quiet [] r.2)

/-- The response to the battery request. -/
def batteryResponse : List UInt8 := [0xAA, 0xAA, 0x02, 100, 0]

theorem uplink_serves_textBefore :
    ∃ s' ts r, run State.init textBefore = some (s', ts) ∧
      recv restOdometry (fun _ => 100) ⟨sent ts, false⟩ (Minotaur.init restOdometry) = some r ∧
      batteryResponse ∈ r.served.map MinosPacket.bytes := by
  have hrun : uplinkOf textBefore = some (zeroText ++ batteryRequest.bytes ++ batteryResponse ++
      [0xAA], [(35, batteryResponse)], true, true) := by decide +kernel
  obtain ⟨⟨s', ts⟩, hts, hsummary⟩ := Option.map_eq_some_iff.1 hrun
  simp only [Prod.mk.injEq, List.all_eq_true, Bool.not_eq_true'] at hsummary
  obtain ⟨hsent, hqueued, hfull, hquiet⟩ := hsummary
  have hclean : CleanRead (Minotaur.init restOdometry).ring ⟨sent ts, false⟩ := by
    rw [hsent]
    decide +kernel
  have hstart : Receives restOdometry [] [] (Minotaur.init restOdometry) := .start
  obtain ⟨r, hrecv, -⟩ := hstart.recv_isSome (fun _ => 100) hclean
  refine ⟨s', ts, r, hts, hrecv, ?_⟩
  obtain ⟨served, hserved, -, -, hsub⟩ :=
    uplink_serves hts rfl rfl hfull hquiet (hstart.recv hclean hrecv) List.prefix_rfl
  rw [List.nil_append] at hserved
  rw [hserved]
  refine List.mem_map.2 ⟨(35, batteryResponse), hsub.subset ?_, rfl⟩
  rw [hqueued, List.nil_append, hsent]
  decide +kernel

/-- A debug text behind the first byte of a request whose sequence number is
the sync byte: the transmit buffer never gets full, the response is sent with
a byte behind it, and the host does not serve it. -/
theorem uplink_loses_textInside :
    ∃ s' ts r, run State.init textInside = some (s', ts) ∧
      (∀ t ∈ ts, t.txFull = false) ∧ queued 0 ts = [(35, batteryResponse)] ∧
      (sent ts).length = 41 ∧
      recv restOdometry (fun _ => 100) ⟨sent ts, false⟩ (Minotaur.init restOdometry) = some r ∧
      batteryResponse ∉ r.served.map MinosPacket.bytes := by
  have hrun : uplinkOf textInside = some ([0xAA] ++ zeroText ++ batteryRequest.bytes.drop 1 ++
      batteryResponse ++ [0xAA], [(35, batteryResponse)], true, false) := by decide +kernel
  obtain ⟨⟨s', ts⟩, hts, hsummary⟩ := Option.map_eq_some_iff.1 hrun
  simp only [Prod.mk.injEq, List.all_eq_true, Bool.not_eq_true'] at hsummary
  obtain ⟨hsent, hqueued, hfull, -⟩ := hsummary
  have hserved : (recv restOdometry (fun _ => 100) ⟨[0xAA] ++ zeroText ++
      batteryRequest.bytes.drop 1 ++ batteryResponse ++ [0xAA], false⟩
      (Minotaur.init restOdometry)).map (fun r => r.served) =
        some [⟨0xAA, 49, 58, 32, 48⟩, ⟨0xAA, 2, 0, 0, 0xAA⟩] := by decide +kernel
  rw [← hsent] at hserved
  obtain ⟨r, hrecv, hr⟩ := Option.map_eq_some_iff.1 hserved
  refine ⟨s', ts, r, hts, hfull, hqueued, by rw [hsent]; decide +kernel, hrecv, ?_⟩
  rw [hr]
  decide

end MinotaurRobot.Link
