import MinotaurRobot.Cnc.Server

/-!
# The stream of the robot in segments

`MinotaurProtocol.dataReceived` takes the first chunk for the name of the robot
and every other chunk for a message.  `decodes_iff` gives the ways to cut the
stream for which that is right: the login and every metrics packet have to be
chunks of their own.  The keepalives may be cut and joined in any way.

Requests of the clients come in between.  A packet that arrives before any
request is dropped, and a robot does not send one then.
-/

namespace MinotaurRobot.Cnc

open Lib.Marked Lib.StructFormat

variable {Client : Type} [DecidableEq Client]

/-! ## What the server sees -/

inductive ServerEvent (Client : Type) where
  | request (client : Client)
  | receive (data : List UInt8)

/-- The server behind a list of events, and the metrics that it has handed
on. -/
def Minotaur.run : Minotaur Client → List (ServerEvent Client) →
    Minotaur Client × List (List (String × Value))
  | m, [] => (m, [])
  | m, .request client :: events => (m.requestMetrics client).1.run events
  | m, .receive data :: events =>
    let (m, answer) := m.dataReceived data
    let (m, metrics) := m.run events
    (m, (answer.map Answer.metrics).toList ++ metrics)

/-- The chunks that are received. -/
def chunks (events : List (ServerEvent Client)) : List (List UInt8) :=
  events.filterMap fun
    | .request _ => none
    | .receive data => some data

/-- The dictionary of a metrics packet. -/
def Message.dict : Message → Option (List (String × Value))
  | .keepalive => none
  | .metrics state => some (metricsDict (MinotaurStatePacked.ofState state).values)

/-- The robot is registered under its name, and exactly the metrics that it
has sent are recognised, in order. -/
def Decodes (messages : List Message) (events : List (ServerEvent Client)) : Prop :=
  (Minotaur.init.run events).1.name = some loginBytes ∧
    (Minotaur.init.run events).2 = messages.filterMap Message.dict

/-- A client has asked before a chunk of the shape of a metrics packet
arrives. -/
def Asked (events : List (ServerEvent Client)) : Prop :=
  ∀ pre data suf, events = pre ++ .receive data :: suf → isPacket data = true →
    ∃ client, .request client ∈ pre

/-- The login and every metrics packet are chunks of their own, at their place
in the stream. -/
def Separate (messages : List Message) (events : List (ServerEvent Client)) : Prop :=
  ∃ behind, chunks events = loginBytes :: behind ∧
    Own metricsMark (messages.map Message.bytes) behind

/-- No metrics packet has a signalling NaN. -/
def Quiet (messages : List Message) : Prop :=
  ∀ state, .metrics state ∈ messages → (MinotaurStatePacked.ofState state).Quiet

/-! ## The packets of the robot -/

/-- What the server reads in a chunk. -/
def readDict (data : List UInt8) : List (String × Value) :=
  metricsDict (unpackFields metricsFormat data)

theorem packets_cons (message : Message) (messages : List Message) :
    packets metricsMark ((message :: messages).map Message.bytes) =
      match message with
      | .keepalive => packets metricsMark (messages.map Message.bytes)
      | .metrics state =>
        (Message.metrics state).bytes :: packets metricsMark (messages.map Message.bytes) := by
  unfold packets
  cases message with
  | keepalive => exact List.filter_cons_of_neg (by decide)
  | metrics state => exact List.filter_cons_of_pos rfl

/-- The packets are read as the states that were sent, unless one has a
signalling NaN. -/
theorem packets_bytes_iff (messages : List Message) :
    (packets metricsMark (messages.map Message.bytes)).map readDict =
        messages.filterMap Message.dict ↔ Quiet messages := by
  induction messages with
  | nil => exact ⟨fun _ state hstate => absurd hstate List.not_mem_nil, fun _ => rfl⟩
  | cons message messages ih =>
    rw [packets_cons]
    cases message with
    | keepalive =>
      rw [List.filterMap_cons_none rfl]
      dsimp only
      rw [ih]
      unfold Quiet
      simp
    | metrics state =>
      have hhead : (Message.metrics state).dict =
          some (metricsDict (MinotaurStatePacked.ofState state).values) := rfl
      rw [List.filterMap_cons_some hhead, List.map_cons, List.cons.injEq, ih, readDict,
        unpack_ofState, dict_eq_iff]
      unfold Quiet
      simp

/-- Chunks that are read as the states that were sent have marks where the
packets have them. -/
theorem marks_of_dicts {messages : List Message} {datas : List (List UInt8)}
    (hlength : ∀ data ∈ datas, data.length = 23)
    (hdicts : datas.map readDict = messages.filterMap Message.dict) :
    datas.map (List.map metricsMark) =
      (packets metricsMark (messages.map Message.bytes)).map (List.map metricsMark) := by
  induction messages generalizing datas with
  | nil =>
    rw [List.filterMap_nil, List.map_eq_nil_iff] at hdicts
    rw [hdicts]
    rfl
  | cons message messages ih =>
    rw [packets_cons]
    cases message with
    | keepalive =>
      rw [List.filterMap_cons_none rfl] at hdicts
      exact ih hlength hdicts
    | metrics state =>
      have hhead : (Message.metrics state).dict =
          some (metricsDict (MinotaurStatePacked.ofState state).values) := rfl
      rw [List.filterMap_cons_some hhead] at hdicts
      obtain ⟨data, rest, rfl, hdata, hrest⟩ := List.map_eq_cons_iff.1 hdicts
      have hvalues : unpackFields metricsFormat data = (MinotaurStatePacked.ofState state).values :=
        metricsDict_injective (length_unpackFields data) rfl hdata
      have hread : unpackFields metricsFormat data =
          unpackFields metricsFormat (Message.metrics state).bytes := by
        rw [unpack_ofState, ← widened_values, ← hvalues, widened_unpackFields]
      have hmarks : data.map metricsMark = (Message.metrics state).bytes.map metricsMark :=
        marks_of_unpackFields (hlength data List.mem_cons_self) (length_bytes _) hread
      rw [List.map_cons, List.map_cons, hmarks,
        ih (fun d hd => hlength d (List.mem_cons_of_mem data hd)) hrest]

/-! ## A server that is logged in -/

/-- The chunks that are recognised, from a server with or without the key
`0x30`. -/
def picked : Bool → List (ServerEvent Client) → List (List UInt8)
  | _, [] => []
  | _, .request _ :: events => picked true events
  | asked, .receive data :: events =>
    if asked && isPacket data then data :: picked asked events else picked asked events

/-- The metrics that are handed on are those of the recognised chunks. -/
theorem run_loggedin {m : Minotaur Client} (h : m.loggedin = true)
    (events : List (ServerEvent Client)) :
    (m.run events).1.name = m.name ∧
      (m.run events).2 = (picked m.requests.isSome events).map readDict := by
  induction events generalizing m with
  | nil => exact ⟨rfl, rfl⟩
  | cons event events ih =>
    cases event with
    | request client =>
      have hlogin : (m.requestMetrics client).1.loggedin = true := h
      exact ih hlogin
    | receive data =>
      have hreceived := dataReceived_eq h data
      rw [Minotaur.run, picked, hreceived]
      by_cases hpacket : (m.requests.isSome && isPacket data) = true
      · have hkey : m.requests.isSome = true := (Bool.and_eq_true_iff.1 hpacket).1
        obtain ⟨hname, hmetrics⟩ := ih (m := { m with requests := some ∅ }) h
        rw [if_pos hpacket, if_pos hpacket]
        refine ⟨hname, ?_⟩
        rw [hkey]
        exact congrArg (_ :: ·) hmetrics
      · rw [if_neg hpacket, if_neg hpacket]
        exact ih h

omit [DecidableEq Client] in
theorem picked_sublist (asked : Bool) (events : List (ServerEvent Client)) :
    (picked asked events).Sublist (recognise metricsMark 23 (chunks events)) := by
  induction events generalizing asked with
  | nil => exact List.Sublist.refl []
  | cons event events ih =>
    cases event with
    | request client => exact ih true
    | receive data =>
      have hrest := ih asked
      have hchunks : chunks (.receive data :: events) = data :: chunks events := rfl
      rw [hchunks, picked, recognise, List.filter_cons]
      have hpacket : (headed metricsMark data && data.length == 23) = isPacket data := rfl
      rw [hpacket]
      cases isPacket data with
      | false =>
        rw [Bool.and_false, if_neg Bool.false_ne_true, if_neg Bool.false_ne_true]
        exact hrest
      | true =>
        rw [Bool.and_true, if_pos rfl]
        cases asked with
        | false => exact hrest.cons data
        | true => exact hrest.cons_cons data

omit [DecidableEq Client] in
theorem asked_request (client : Client) (events : List (ServerEvent Client)) :
    Asked (.request client :: events) := by
  intro pre data suf hsplit _
  cases pre with
  | nil => cases (List.cons.inj hsplit).1
  | cons event pre =>
    rw [← (List.cons.inj hsplit).1]
    exact ⟨client, List.mem_cons_self⟩

omit [DecidableEq Client] in
theorem asked_receive (data : List UInt8) (events : List (ServerEvent Client)) :
    Asked (.receive data :: events) ↔ isPacket data = false ∧ Asked events := by
  constructor
  · intro h
    refine ⟨?_, ?_⟩
    · rw [Bool.eq_false_iff]
      intro hpacket
      obtain ⟨client, hmem⟩ := h [] data events rfl hpacket
      cases hmem
    · intro pre data' suf hsplit hpacket
      obtain ⟨client, hmem⟩ := h (.receive data :: pre) data' suf (by rw [hsplit]; rfl) hpacket
      rcases List.mem_cons.1 hmem with hmem | hmem
      · cases hmem
      · exact ⟨client, hmem⟩
  · intro h pre data' suf hsplit hpacket
    cases pre with
    | nil =>
      obtain ⟨hdata, -⟩ := List.cons.inj hsplit
      rw [ServerEvent.receive.injEq] at hdata
      rw [← hdata, h.1] at hpacket
      cases hpacket
    | cons event pre =>
      obtain ⟨-, hrest⟩ := List.cons.inj hsplit
      obtain ⟨client, hmem⟩ := h.2 pre data' suf hrest hpacket
      exact ⟨client, List.mem_cons_of_mem event hmem⟩

omit [DecidableEq Client] in
/-- All packets are recognised exactly if there is a request in front of
each. -/
theorem picked_eq_iff (asked : Bool) (events : List (ServerEvent Client)) :
    picked asked events = recognise metricsMark 23 (chunks events) ↔
      asked = true ∨ Asked events := by
  induction events generalizing asked with
  | nil =>
    refine ⟨fun _ => Or.inr ?_, fun _ => rfl⟩
    intro pre data suf hsplit
    simp at hsplit
  | cons event events ih =>
    cases event with
    | request client =>
      refine ⟨fun _ => Or.inr (asked_request client events), fun _ => ?_⟩
      exact (ih true).2 (Or.inl rfl)
    | receive data =>
      have hrecognise : recognise metricsMark 23 (chunks (.receive data :: events)) =
          if isPacket data = true then data :: recognise metricsMark 23 (chunks events)
          else recognise metricsMark 23 (chunks events) := List.filter_cons
      rw [hrecognise, picked, asked_receive]
      cases hpacket : isPacket data with
      | false =>
        rw [Bool.and_false, if_neg Bool.false_ne_true, if_neg Bool.false_ne_true, ih]
        simp
      | true =>
        rw [Bool.and_true, if_pos rfl]
        cases asked with
        | true =>
          rw [if_pos rfl, List.cons.injEq]
          simp [ih]
        | false =>
          have hlen := (picked_sublist false events).length_le
          rw [if_neg Bool.false_ne_true]
          constructor
          · intro heq
            rw [heq, List.length_cons] at hlen
            omega
          · intro h
            simp at h

/-! ## Up to the login -/

omit [DecidableEq Client] in
theorem exists_first_chunk {events : List (ServerEvent Client)} {data : List UInt8}
    {behind : List (List UInt8)} (h : chunks events = data :: behind) :
    ∃ requests rest, events = requests ++ .receive data :: rest ∧ chunks requests = [] ∧
      chunks rest = behind := by
  induction events with
  | nil => cases h
  | cons event events ih =>
    cases event with
    | request client =>
      obtain ⟨requests, rest, hsplit, hnone, hrest⟩ := ih h
      exact ⟨.request client :: requests, rest, by rw [hsplit]; rfl, hnone, hrest⟩
    | receive data' =>
      obtain ⟨hdata, hrest⟩ := List.cons.inj h
      exact ⟨[], events, by rw [hdata]; rfl, rfl, hrest⟩

omit [DecidableEq Client] in
theorem asked_append {requests : List (ServerEvent Client)} (h : chunks requests = [])
    (events : List (ServerEvent Client)) :
    Asked (requests ++ events) ↔ requests.isEmpty = false ∨ Asked events := by
  cases requests with
  | nil => simp
  | cons event requests =>
    cases event with
    | request client =>
      exact ⟨fun _ => Or.inl rfl, fun _ => asked_request client (requests ++ events)⟩
    | receive data => cases h

/-- The requests in front of the login only leave the key behind. -/
theorem run_requests (m : Minotaur Client) {requests : List (ServerEvent Client)}
    (h : chunks requests = []) :
    ∃ m' : Minotaur Client, m'.loggedin = m.loggedin ∧
      m'.requests.isSome = (m.requests.isSome || !requests.isEmpty) ∧
      ∀ events, m.run (requests ++ events) = m'.run events := by
  induction requests generalizing m with
  | nil => exact ⟨m, rfl, by simp, fun _ => rfl⟩
  | cons event requests ih =>
    cases event with
    | request client =>
      obtain ⟨m', hlogin, hkey, hrun⟩ := ih (m.requestMetrics client).1 h
      refine ⟨m', hlogin, ?_, fun events => hrun events⟩
      rw [hkey]
      simp [Minotaur.requestMetrics]
    | receive data => cases h

/-! ## The whole stream -/

/-- What has to be recognised behind the first chunk. -/
theorem decodes_append_iff {messages : List Message} {requests : List (ServerEvent Client)}
    (hrequests : chunks requests = []) (data : List UInt8) (rest : List (ServerEvent Client)) :
    Decodes messages (requests ++ .receive data :: rest) ↔
      data = loginBytes ∧
        (picked (!requests.isEmpty) rest).map readDict = messages.filterMap Message.dict := by
  obtain ⟨m, hlogin, hkey, hrun⟩ := run_requests (Minotaur.init : Minotaur Client) hrequests
  have hfirst : m.dataReceived data = (m.login data, none) := by
    unfold Minotaur.dataReceived
    rw [hlogin]
    rfl
  have hkey' : (m.login data).requests.isSome = !requests.isEmpty := hkey
  obtain ⟨hname, hmetrics⟩ := run_loggedin (m := m.login data) rfl rest
  rw [hkey'] at hmetrics
  unfold Decodes
  rw [hrun, Minotaur.run, hfirst]
  show ((m.login data).run rest).1.name = _ ∧ ((m.login data).run rest).2 = _ ↔ _
  rw [hname, hmetrics]
  exact and_congr_left fun _ => ⟨Option.some.inj, congrArg some⟩

/-- The server decodes the stream of the robot exactly if the login and every
metrics packet arrive as chunks of their own, a client has asked before, and no
packet has a signalling NaN. -/
theorem decodes_iff {messages : List Message} {events : List (ServerEvent Client)}
    (hstream : (chunks events).flatten = loginBytes ++ stream messages) :
    Decodes messages events ↔ Separate messages events ∧ Asked events ∧ Quiet messages := by
  cases hchunks : chunks events with
  | nil =>
    rw [hchunks] at hstream
    cases hstream
  | cons data behind =>
    obtain ⟨requests, rest, rfl, hrequests, hrest⟩ := exists_first_chunk hchunks
    rw [decodes_append_iff hrequests, asked_append hrequests, asked_receive, Separate, hchunks]
    rw [hchunks, List.flatten_cons] at hstream
    have hvalid := valid_messages messages
    have hkey : (!requests.isEmpty) = true ↔ requests.isEmpty = false := by
      cases requests.isEmpty <;> simp
    have hrecognise := picked_eq_iff (!requests.isEmpty) rest
    rw [hkey, hrest] at hrecognise
    have hsub := picked_sublist (!requests.isEmpty) rest
    rw [hrest] at hsub
    constructor
    · intro h
      obtain ⟨rfl, hdicts⟩ := h
      have hflat : behind.flatten = (messages.map Message.bytes).flatten :=
        List.append_cancel_left hstream
      have hlength : ∀ d ∈ picked (!requests.isEmpty) rest, d.length = 23 := by
        intro d hd
        have hmem := hsub.subset hd
        unfold recognise at hmem
        rw [List.mem_filter, Bool.and_eq_true, beq_iff_eq] at hmem
        exact hmem.2.2
      have hmarks := marks_of_dicts hlength hdicts
      have hown : Own metricsMark (messages.map Message.bytes) behind := by
        apply own_of_marks hvalid hflat
        rw [← hmarks]
        exact (hsub.trans List.filter_sublist).map _
      have hpackets := recognise_of_own hvalid hflat hown
      -- as many chunks are picked as there are packets
      have hpicked : picked (!requests.isEmpty) rest = recognise metricsMark 23 behind := by
        apply hsub.eq_of_length
        have hcount := congrArg List.length hmarks
        rwa [List.length_map, List.length_map, ← hpackets] at hcount
      refine ⟨⟨behind, rfl, hown⟩, ?_, ?_⟩
      · rcases hrecognise.1 hpicked with hempty | hasked
        · exact Or.inl hempty
        · exact Or.inr ⟨by decide, hasked⟩
      · rwa [hpicked, hpackets, packets_bytes_iff] at hdicts
    · intro h
      obtain ⟨⟨behind', hbehind, hown⟩, hasked, hquiet⟩ := h
      obtain ⟨rfl, rfl⟩ := List.cons.inj hbehind
      have hflat : behind.flatten = (messages.map Message.bytes).flatten :=
        List.append_cancel_left hstream
      have hpicked : picked (!requests.isEmpty) rest = recognise metricsMark 23 behind := by
        rw [hrecognise]
        exact hasked.imp_right And.right
      refine ⟨rfl, ?_⟩
      rw [hpicked, recognise_of_own hvalid hflat hown, packets_bytes_iff]
      exact hquiet

/-- The login and a packet as chunks of their own, and a keepalive in two. -/
theorem decodes_separate :
    Decodes [.keepalive, .metrics parked]
      ([.receive loginBytes, .request 1, .receive (keepaliveBytes.take 5),
        .receive (keepaliveBytes.drop 5), .receive (Message.metrics parked).bytes] :
        List (ServerEvent ℕ)) := by
  apply (decodes_iff (by decide)).2
  have hquiet : Quiet [.keepalive, .metrics parked] := by
    intro state hstate
    simp only [List.mem_cons, reduceCtorEq, Message.metrics.injEq, List.not_mem_nil, or_false,
      false_or] at hstate
    rw [hstate]
    decide
  refine ⟨⟨_, rfl, ?_⟩, (asked_receive _ _).2 ⟨by decide, asked_request _ _⟩, hquiet⟩
  intro pre m suf hsplit hm
  rcases pre with _ | ⟨first, _ | ⟨second, pre⟩⟩
  · obtain ⟨rfl, -⟩ := List.cons.inj hsplit
    cases hm
  · obtain ⟨rfl, hrest⟩ := List.cons.inj hsplit
    obtain ⟨rfl, -⟩ := List.cons.inj hrest
    exact ⟨[keepaliveBytes.take 5, keepaliveBytes.drop 5], [], rfl, by decide⟩
  · simp at hsplit

/-- The login and the first keepalive in one chunk: the robot gets another
name. -/
theorem decodes_joined :
    (chunks ([.receive (loginBytes ++ keepaliveBytes)] : List (ServerEvent ℕ))).flatten =
        loginBytes ++ stream [.keepalive] ∧
      ¬Decodes [.keepalive] ([.receive (loginBytes ++ keepaliveBytes)] : List (ServerEvent ℕ)) := by
  refine ⟨by decide, ?_⟩
  intro h
  exact absurd h.1 (by decide)

end MinotaurRobot.Cnc
