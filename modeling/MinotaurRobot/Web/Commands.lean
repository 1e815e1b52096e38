import MinotaurRobot.Cnc.Messages
import MinotaurRobot.Web.Session

/-!
# From the stream to the robot

The wrapped protocol of a connection is the `WebsocketProtocol` of `cnc.py`.
`commands_of_stream` says which commands the robots get out of the stream of a
browser: those of its key messages, as if these had come one by one, and
requests for metrics in between.
-/

namespace MinotaurRobot.Web

open Lib.Incremental
open Cnc (Python Server SendCmd KeyMessage Session Json isMetricsRequest gKeys speed keyCommands)

variable {Client : Type} [DecidableEq Client]

/-- The server and the commands that it has sent to its robots. -/
abbrev Served (Client : Type) := Server Client × List (List UInt8 × SendCmd)

/-- `WebsocketProtocol` as the wrapped protocol. -/
def serveBrowser (py : Python) (me : Client) : Wrapped (Served Client) := fun s text =>
  let r := s.1.dataReceived py me text
  ((r.server, s.2 ++ r.sent), r.raised.isSome)

/-- The key message that a text carries, if it carries one for a robot that is
logged in. -/
def keyMessage (py : Python) (s : Server Client) (text : List UInt8) : Option KeyMessage :=
  match py.loads text with
  | some (.object data) =>
    if (s.robot data).isSome ∧ isMetricsRequest data = false then
      (gKeys data).operand.map fun keys => ⟨keys, speed py data⟩
    else none
  | _ => none

/-- The texts of the frames. -/
def texts (frames : List Frame) : List (List UInt8) :=
  frames.filterMap fun frame =>
    match frame with
    | .normal data => some data
    | _ => none

/-- The commands other than requests for metrics. -/
def drives (sent : List (List UInt8 × SendCmd)) : List SendCmd :=
  (sent.map Prod.snd).filter fun c => c.command ≠ 0x30

/-! ## One message -/

/-- The names under which robots are logged in. -/
def names (s : Server Client) : List (List UInt8) := s.instances.map Prod.fst

omit [DecidableEq Client] in
theorem robot_isSome {s s' : Server Client} (h : names s = names s')
    (data : List (Cnc.Text × Json)) : (s.robot data).isSome = (s'.robot data).isSome := by
  have hfind : ∀ (t : Server Client) (text : Cnc.Text),
      (t.instances.find? fun r => Cnc.spells text r.1).isSome =
        (names t).any fun name => Cnc.spells text name := by
    intro t text
    rw [names, List.any_map, List.isSome_find?]
    rfl
  unfold Server.robot
  cases Cnc.member data "robotid" with
  | none => rfl
  | some robotid =>
    cases robotid with
    | string text =>
      show (s.instances.find? _).isSome = (s'.instances.find? _).isSome
      rw [hfind, hfind, h]
    | null | bool | int | float | array | object => rfl

omit [DecidableEq Client] in
theorem keyMessage_congr {s s' : Server Client} (h : names s = names s') (py : Python)
    (text : List UInt8) : keyMessage py s text = keyMessage py s' text := by
  unfold keyMessage
  cases py.loads text with
  | none => rfl
  | some message =>
    cases message with
    | object data =>
      dsimp only
      rw [robot_isSome h]
    | null | bool | int | float | string | array => rfl

/-- What a message does that raises nothing. -/
structure Handled (py : Python) (s s' : Served Client) (text : List UInt8) : Prop where
  names : names s'.1 = names s.1
  session : (⟨s'.1.lastKeys, drives s'.2⟩ : Session) =
    match keyMessage py s.1 text with
    | none => ⟨s.1.lastKeys, drives s.2⟩
    | some message => Session.dataReceived ⟨s.1.lastKeys, drives s.2⟩ message

theorem drives_append (sent sent' : List (List UInt8 × SendCmd)) :
    drives (sent ++ sent') = drives sent ++ drives sent' := by
  unfold drives
  rw [List.map_append, List.filter_append]

/-- A key message sends no request for metrics. -/
theorem drives_keyCommands (name : List UInt8) (lastKeys : Option Int) (message : KeyMessage) :
    drives ((keyCommands lastKeys message).map fun c => (name, c)) =
      keyCommands lastKeys message := by
  have hcamera : ∀ c ∈ Cnc.cameraCommand message.gKeys, c.command ≠ 0x30 := by
    intro c hc
    unfold Cnc.cameraCommand at hc
    split_ifs at hc <;> simp_all
  have hsnd : (Prod.snd ∘ fun c : SendCmd => (name, c)) = id := rfl
  unfold drives
  rw [List.map_map, hsnd, List.map_id, List.filter_eq_self]
  intro c hc
  rw [decide_eq_true_iff]
  unfold keyCommands at hc
  rcases List.mem_append.1 hc with hdrive | hpressed
  · cases hlast : lastKeys with
    | none => simp [hlast] at hdrive
    | some last =>
      simp only [hlast] at hdrive
      split_ifs at hdrive
      · rw [List.mem_singleton] at hdrive
        rw [hdrive]
        exact (by decide : (0x01 : Int) ≠ 0x30)
      · cases hdrive
  · split_ifs at hpressed
    · exact hcamera c hpressed
    · cases hpressed

/-- A request for metrics. -/
theorem toRobot_metrics (py : Python) (me : Client) (robot : List UInt8 × Cnc.Minotaur Client)
    {s : Server Client} {data : List (Cnc.Text × Json)}
    (h : isMetricsRequest data = true) :
    names (s.toRobot py me robot data).server = names s ∧
      (s.toRobot py me robot data).server.lastKeys = s.lastKeys ∧
      drives (s.toRobot py me robot data).sent = [] := by
  rw [Server.toRobot, if_pos h]
  refine ⟨?_, rfl, ?_⟩
  · show (s.instances.map fun r => if r.1 = robot.1 then _ else r).map Prod.fst = _
    rw [List.map_map, names]
    apply List.map_congr_left
    intro r _
    show (if r.1 = robot.1 then _ else r).1 = r.1
    split <;> rfl
  · show drives ((robot.2.requestMetrics me).2.map fun c => (robot.1, c)) = []
    unfold Cnc.Minotaur.requestMetrics
    dsimp only
    split <;> rfl

theorem serveBrowser_handled (py : Python) (me : Client) {s : Served Client} {text : List UInt8}
    (h : (serveBrowser py me s text).2 = false) :
    Handled py s (serveBrowser py me s text).1 text := by
  have hsession : ∀ r : Cnc.Received Client, names r.server = names s.1 →
      (⟨r.server.lastKeys, drives (s.2 ++ r.sent)⟩ : Session) =
        (match keyMessage py s.1 text with
          | none => ⟨s.1.lastKeys, drives s.2⟩
          | some message => Session.dataReceived ⟨s.1.lastKeys, drives s.2⟩ message) →
      s.1.dataReceived py me text = r → Handled py s (serveBrowser py me s text).1 text := by
    rintro r hnames hr rfl
    exact ⟨hnames, hr⟩
  have hquiet : ∀ server : Server Client, names server = names s.1 →
      server.lastKeys = s.1.lastKeys → keyMessage py s.1 text = none →
      s.1.dataReceived py me text = { server := server } →
        Handled py s (serveBrowser py me s text).1 text := by
    intro server hnames hlast hnone heq
    apply hsession { server := server } hnames _ heq
    rw [hnone]
    show (⟨server.lastKeys, drives (s.2 ++ [])⟩ : Session) = _
    rw [hlast, List.append_nil]
  have hraised : (s.1.dataReceived py me text).raised = none := by
    simpa [serveBrowser] using h
  cases hloads : py.loads text with
  | none =>
    have hnone : keyMessage py s.1 text = none := by rw [keyMessage, hloads]
    apply hquiet { s.1 with connected := true } rfl rfl hnone
    rw [Server.dataReceived, hloads]
  | some message =>
    cases message with
    | object data =>
      have hconnected : { s.1 with connected := true }.robot data = s.1.robot data := rfl
      cases hrobot : s.1.robot data with
      | none =>
        have hnone : keyMessage py s.1 text = none := by
          rw [keyMessage, hloads]
          dsimp only
          rw [hrobot]
          rfl
        apply hquiet { s.1 with connected := true } rfl rfl hnone
        unfold Server.dataReceived at hraised ⊢
        simp only [hloads, hconnected, hrobot] at hraised ⊢
        split_ifs at hraised ⊢ with hlength
        · cases hmember : Cnc.member data "robotid" with
          | none =>
            simp only [hmember] at hraised
            cases hraised
          | some robotid =>
            simp only [hmember] at hraised ⊢
            rw [show py.print robotid = none from hraised]
        · rfl
      | some robot =>
        have hreceived : s.1.dataReceived py me text =
            { s.1 with connected := true }.toRobot py me robot data := by
          simp only [Server.dataReceived, hloads, hconnected, hrobot]
        cases hmetrics : isMetricsRequest data with
        | true =>
          obtain ⟨hnames, hlast, hsent⟩ :=
            toRobot_metrics py me robot (s := { s.1 with connected := true }) hmetrics
          have hnone : keyMessage py s.1 text = none := by
            rw [keyMessage, hloads]
            dsimp only
            rw [hmetrics]
            simp
          apply hsession _ hnames _ hreceived
          rw [hnone, hlast, drives_append, hsent, List.append_nil]
        | false =>
          cases hoperand : (gKeys data).operand with
          | none =>
            rw [hreceived, Cnc.toRobot_raises py me hmetrics hoperand] at hraised
            cases hraised
          | some keys =>
            have hkeys : keyMessage py s.1 text = some ⟨keys, speed py data⟩ := by
              rw [keyMessage, hloads]
              dsimp only
              rw [hmetrics, hrobot, hoperand]
              rfl
            rw [Cnc.toRobot_keys py me hmetrics hoperand] at hreceived
            apply hsession _ _ _ hreceived
            · rfl
            · rw [hkeys]
              dsimp only
              rw [drives_append, drives_keyCommands]
              rfl
    | null | bool | int | float | string | array =>
      rw [Server.dataReceived, hloads] at hraised
      cases hraised

/-! ## A stream of messages -/

/-- The texts that are served, as key messages. -/
theorem serve_commands (lib : Library) (py : Python) (me : Client) {frames : List Frame}
    {s s' : Served Client}
    (h : Connection.serve lib (serveBrowser py me) false s frames = some s') :
    names s'.1 = names s.1 ∧ (⟨s'.1.lastKeys, drives s'.2⟩ : Session) =
      ((texts frames).filterMap (keyMessage py s.1)).foldl Session.dataReceived
        ⟨s.1.lastKeys, drives s.2⟩ := by
  induction frames generalizing s with
  | nil =>
    cases h
    exact ⟨rfl, rfl⟩
  | cons frame frames ih =>
    cases frame with
    | normal data =>
      rw [Connection.serve] at h
      change (if (serveBrowser py me s data).2 then none
        else Connection.serve lib (serveBrowser py me) false (serveBrowser py me s data).1 frames) =
          some s' at h
      split_ifs at h with hraised
      have hhandled := serveBrowser_handled py me (by simpa using hraised)
      obtain ⟨hnames, hsession⟩ := ih h
      have hcongr : keyMessage py (serveBrowser py me s data).1.1 = keyMessage py s.1 := by
        funext text
        exact keyMessage_congr hhandled.names py text
      refine ⟨hnames.trans hhandled.names, ?_⟩
      rw [hsession, hcongr, hhandled.session]
      show _ = ((data :: texts frames).filterMap (keyMessage py s.1)).foldl _ _
      rw [List.filterMap_cons]
      cases keyMessage py s.1 data <;> rfl
    | close reason text => cases h
    | ping data | pong data => exact ih h

/-- As long as a connection lives, the robots have got the commands of its key
messages, in their order and once, however the stream was cut. -/
theorem commands_of_stream {lib : Library} {py : Python} {me : Client} {server : Server Client}
    {opened : Connection (Served Client)} {flavor : Flavor} {body : List UInt8}
    {events : List Connection.Event}
    (h : Connection.Opened lib (serveBrowser py me) (server, []) opened flavor body events)
    (hcodec : opened.codec = false) (hwrapped : opened.wrapped = (server, []))
    (hnew : server.lastKeys = none)
    (hlive : ((Connection.start (server, [])).run lib (serveBrowser py me) events).Alive) :
    ∃ frames rest, (Connection.parser flavor).parse body = .ok (frames, rest) ∧
      drives ((Connection.start (server, [])).run lib (serveBrowser py me) events).wrapped.2 =
        (Session.run ((texts frames).filterMap (keyMessage py server))).sent := by
  obtain ⟨hlives, hruns⟩ := h.run
  obtain ⟨hbare, -⟩ := hruns hlive
  have hwaiting := hlives.1 hlive
  obtain ⟨frames, rest, hparse, hserve⟩ :=
    (Connection.machine_serves opened body h.alive h.state h.flavor _).1 ⟨hwaiting, rfl⟩
  rw [hcodec, hwrapped] at hserve
  obtain ⟨-, hsession⟩ := serve_commands lib py me hserve
  refine ⟨frames, rest, hparse, ?_⟩
  have hsent := congrArg Session.sent hsession
  rw [← hbare, hnew] at hsent
  exact hsent

/-- `json.loads` on two messages, and on everything that is no `JSON`. -/
def samplePython : Python where
  loads jdata :=
    if jdata = asciiBytes "\x7b\"gKeys\":0,\"speed\":50,\"robotid\":\"Bull:1\"\x7d" then
      some (.object [(Cnc.ascii "gKeys", .int 0), (Cnc.ascii "speed", .int 50),
        (Cnc.ascii "robotid", .string (Cnc.ascii "Bull:1"))])
    else if jdata = asciiBytes "\x7b\"gKeys\":1,\"speed\":50,\"robotid\":\"Bull:1\"\x7d" then
      some (.object [(Cnc.ascii "gKeys", .int 1), (Cnc.ascii "speed", .int 50),
        (Cnc.ascii "robotid", .string (Cnc.ascii "Bull:1"))])
    else none
  intOfText _ := none
  encodes text := text.all (· < 128)

/-- The greeting of the page, and two key messages. -/
def sampleBody : List UInt8 :=
  makeHybi07Frame (asciiBytes "Hello from the client!") 0x1 ++
    makeHybi07Frame (asciiBytes "\x7b\"gKeys\":0,\"speed\":50,\"robotid\":\"Bull:1\"\x7d") 0x1 ++
    makeHybi07Frame (asciiBytes "\x7b\"gKeys\":1,\"speed\":50,\"robotid\":\"Bull:1\"\x7d") 0x1

deriving instance DecidableEq for Cnc.Minotaur

deriving instance DecidableEq for Server

def sampleServer : Server ℕ := ⟨[(asciiBytes "Bull:1", ⟨some (asciiBytes "Bull:1"), true, none⟩)],
  false, none⟩

/-- W at half speed, in a stream that is cut behind its hundredth byte. -/
theorem commands_of_stream_forward :
    drives ((Connection.start (sampleServer, [])).run Connection.sampleLibrary
      (serveBrowser samplePython 0)
      [.receive (Connection.sampleOpening ++ sampleBody.take 100),
        .receive (sampleBody.drop 100)]).wrapped.2 = [⟨0x01, 63, 63⟩] := by
  have hopened : Connection.Opened Connection.sampleLibrary (serveBrowser samplePython 0)
      (sampleServer, [])
      ((Connection.machine Connection.sampleLibrary (serveBrowser samplePython 0)).run
        (Connection.start (sampleServer, [])) Connection.sampleOpening).1 .rfc6455 sampleBody
      [.receive (Connection.sampleOpening ++ sampleBody.take 100),
        .receive (sampleBody.drop 100)] :=
    { opening := ⟨Connection.sampleOpening, Prod.ext (by dsimp only) (by decide +kernel),
        by decide +kernel⟩
      alive := by decide +kernel
      state := by decide +kernel
      flavor := by decide +kernel }
  obtain ⟨frames, rest, hparse, hdrives⟩ :=
    commands_of_stream hopened (by decide +kernel) (by decide +kernel) rfl (by decide +kernel)
  have hparsed : (Connection.parser .rfc6455).parse sampleBody =
      .ok ([.normal (asciiBytes "Hello from the client!"),
        .normal (asciiBytes "\x7b\"gKeys\":0,\"speed\":50,\"robotid\":\"Bull:1\"\x7d"),
        .normal (asciiBytes "\x7b\"gKeys\":1,\"speed\":50,\"robotid\":\"Bull:1\"\x7d")], []) := by
    decide +kernel
  rw [hparsed, Except.ok.injEq, Prod.mk.injEq] at hparse
  rw [hdrives, ← hparse.1]
  decide +kernel

end MinotaurRobot.Web
