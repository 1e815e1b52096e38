import Mathlib.Data.List.Induction
import MinotaurRobot.Cnc.Coalesce
import MinotaurRobot.Cnc.Messages

/-!
# Many robots and many browsers

The whole of `cnc.py`: the connections of the robots and of the browsers, which
share `Minotaur.instances`.  A robot that logs in under a name takes the name
from the robot that had it.

* `browser_of_run`: for one browser the server is the one of
  `Server.dataReceived`.
* `replaced_silent` and `commands_of_browser`: whose commands a robot gets.
* `metrics_delivered_iff`: a browser gets the metrics of the robots that it has
  asked, and no others.
-/

namespace MinotaurRobot.Cnc

open Lib.StructFormat

variable {Robot Client : Type} [DecidableEq Robot]

/-! ## `cnc.py` -/

/-- `Minotaur.instances`, the `Minotaur` of each connection of a robot, and
`connected` and `last_keys` of each connection of a browser. -/
structure Fleet (Robot Client : Type) where
  instances : List (List UInt8 × Robot)
  robots : Robot → Minotaur Client
  connected : Client → Bool
  lastKeys : Client → Option Int

def Fleet.start : Fleet Robot Client where
  instances := []
  robots := fun _ => Minotaur.init
  connected := fun _ => false
  lastKeys := fun _ => none

/-- `Minotaur.instances[name] = self`. -/
def register (instances : List (List UInt8 × Robot)) (name : List UInt8) (r : Robot) :
    List (List UInt8 × Robot) :=
  (name, r) :: instances.filter fun entry => entry.1 ≠ name

/-- `MinotaurProtocol.dataReceived`. -/
def Fleet.robotData (f : Fleet Robot Client) (r : Robot) (data : List UInt8) :
    Fleet Robot Client × Option (Answer Client) :=
  let (minotaur, answer) := (f.robots r).dataReceived data
  ({ f with
      instances := if (f.robots r).loggedin then f.instances else register f.instances data r
      robots := Function.update f.robots r minotaur },
    answer)

@[simp] theorem robotData_robots (f : Fleet Robot Client) (r : Robot) (data : List UInt8) :
    (f.robotData r data).1.robots =
      Function.update f.robots r ((f.robots r).dataReceived data).1 := rfl

@[simp] theorem robotData_instances (f : Fleet Robot Client) (r : Robot) (data : List UInt8) :
    (f.robotData r data).1.instances =
      if (f.robots r).loggedin then f.instances else register f.instances data r := rfl

@[simp] theorem robotData_answer (f : Fleet Robot Client) (r : Robot) (data : List UInt8) :
    (f.robotData r data).2 = ((f.robots r).dataReceived data).2 := rfl

/-- The robot that `data['robotid']` names. -/
def Fleet.robot (f : Fleet Robot Client) (data : List (Text × Json)) :
    Option (List UInt8 × Robot) :=
  match member data "robotid" with
  | some (.string text) => f.instances.find? fun entry => spells text entry.1
  | _ => none

variable [DecidableEq Client]

/-- What one message of a browser did. -/
structure FleetReceived (Robot Client : Type) where
  fleet : Fleet Robot Client
  sent : List (Robot × SendCmd) := []
  raised : Option Raised := none

/-- A message to a robot that is logged in. -/
def Fleet.toRobot (py : Python) (me : Client) (f : Fleet Robot Client) (r : Robot)
    (data : List (Text × Json)) : FleetReceived Robot Client :=
  if isMetricsRequest data then
    let (minotaur, commands) := (f.robots r).requestMetrics me
    { fleet := { f with robots := Function.update f.robots r minotaur }
      sent := commands.map fun c => (r, c) }
  else
    match (gKeys data).operand with
    | none => { fleet := f, raised := some .typeError }
    | some keys =>
      { fleet := { f with lastKeys := Function.update f.lastKeys me (some keys) }
        sent := (keyCommands (f.lastKeys me) ⟨keys, speed py data⟩).map fun c => (r, c) }

/-- `WebsocketProtocol.dataReceived`. -/
def Fleet.browserData (py : Python) (me : Client) (f : Fleet Robot Client)
    (jdata : List UInt8) : FleetReceived Robot Client :=
  let f := { f with connected := Function.update f.connected me true }
  match py.loads jdata with
  | none => { fleet := f }
  | some (.object data) =>
    match f.robot data with
    | some robot => f.toRobot py me robot.2 data
    | none =>
      if f.instances.length ≠ 0 then
        match member data "robotid" with
        | none => { fleet := f, raised := some .keyError }
        | some robotid => { fleet := f, raised := py.print robotid }
      else { fleet := f }
  | some _ => { fleet := f, raised := some .attributeError }

inductive FleetEvent (Robot Client : Type) where
  | robot (r : Robot) (data : List UInt8)
  | browser (me : Client) (jdata : List UInt8)

def Fleet.step (py : Python) (f : Fleet Robot Client) :
    FleetEvent Robot Client → Fleet Robot Client
  | .robot r data => (f.robotData r data).1
  | .browser me jdata => (f.browserData py me jdata).fleet

def Fleet.runFrom (py : Python) (f : Fleet Robot Client)
    (events : List (FleetEvent Robot Client)) : Fleet Robot Client :=
  events.foldl (Fleet.step py) f

def Fleet.run (py : Python) (events : List (FleetEvent Robot Client)) : Fleet Robot Client :=
  Fleet.start.runFrom py events

theorem runFleet_concat (py : Python) (events : List (FleetEvent Robot Client))
    (e : FleetEvent Robot Client) :
    Fleet.run py (events ++ [e]) = (Fleet.run py events).step py e := by
  unfold Fleet.run Fleet.runFrom
  rw [List.foldl_append]
  rfl

/-! ## One message -/

/-- What a message of a browser can do. -/
inductive BrowserCases (py : Python) (me : Client) (f : Fleet Robot Client)
    (jdata : List UInt8) (served : FleetReceived Robot Client) : Prop where
  /-- No robot is meant, or `dataReceived` raises. -/
  | dropped (hnone : ∀ data robot, py.loads jdata = some (.object data) →
        f.robot data = some robot → isMetricsRequest data = false ∧ (gKeys data).operand = none)
      (hfleet : served.fleet = { f with connected := Function.update f.connected me true })
      (hsent : served.sent = [])
  | metrics {data : List (Text × Json)} {robot : List UInt8 × Robot}
      (hloads : py.loads jdata = some (.object data)) (hrobot : f.robot data = some robot)
      (hmetrics : isMetricsRequest data = true)
      (hfleet : served.fleet =
        { f with
          connected := Function.update f.connected me true
          robots := Function.update f.robots robot.2
            ((f.robots robot.2).requestMetrics me).1 })
      (hsent : served.sent = ((f.robots robot.2).requestMetrics me).2.map fun c => (robot.2, c))
  | keys {data : List (Text × Json)} {robot : List UInt8 × Robot} {keys : Int}
      (hloads : py.loads jdata = some (.object data)) (hrobot : f.robot data = some robot)
      (hmetrics : isMetricsRequest data = false) (hkeys : (gKeys data).operand = some keys)
      (hfleet : served.fleet =
        { f with
          connected := Function.update f.connected me true
          lastKeys := Function.update f.lastKeys me (some keys) })
      (hsent : served.sent =
        (keyCommands (f.lastKeys me) ⟨keys, speed py data⟩).map fun c => (robot.2, c))

theorem browser_cases (py : Python) (me : Client) (f : Fleet Robot Client)
    (jdata : List UInt8) : BrowserCases py me f jdata (f.browserData py me jdata) := by
  unfold Fleet.browserData
  have hconnected : ∀ data, { f with connected := Function.update f.connected me true }.robot data =
      f.robot data := fun data => rfl
  cases hloads : py.loads jdata with
  | none =>
    refine .dropped (fun data robot hobject => ?_) rfl rfl
    rw [hloads] at hobject
    cases hobject
  | some message =>
    cases message with
    | object data =>
      dsimp only
      rw [hconnected]
      cases hrobot : f.robot data with
      | none =>
        have hnone : ∀ data' robot, py.loads jdata = some (.object data') →
            f.robot data' = some robot →
              isMetricsRequest data' = false ∧ (gKeys data').operand = none := by
          intro data' robot hobject hsome
          rw [hloads, Option.some.injEq, Json.object.injEq] at hobject
          rw [← hobject, hrobot] at hsome
          cases hsome
        dsimp only
        split
        · cases member data "robotid" with
          | none => exact .dropped hnone rfl rfl
          | some robotid => exact .dropped hnone rfl rfl
        · exact .dropped hnone rfl rfl
      | some robot =>
        dsimp only
        unfold Fleet.toRobot
        by_cases hmetrics : isMetricsRequest data = true
        · rw [if_pos hmetrics]
          exact .metrics hloads hrobot hmetrics rfl rfl
        · rw [if_neg hmetrics]
          rw [Bool.not_eq_true] at hmetrics
          cases hkeys : (gKeys data).operand with
          | none =>
            refine .dropped (fun data' robot hobject _ => ?_) rfl rfl
            rw [hloads, Option.some.injEq, Json.object.injEq] at hobject
            rw [← hobject]
            exact ⟨hmetrics, hkeys⟩
          | some keys => exact .keys hloads hrobot hmetrics hkeys rfl rfl
    | null | bool | int | float | string | array =>
      refine .dropped (fun data robot hobject => ?_) rfl rfl
      rw [hloads] at hobject
      cases hobject

omit [DecidableEq Client] in
theorem dataReceived_login {m : Minotaur Client} (h : ¬m.loggedin = true) (data : List UInt8) :
    m.dataReceived data = (m.login data, none) := by
  unfold Minotaur.dataReceived
  rw [if_pos (by simpa using h)]

omit [DecidableEq Client] in
theorem loggedin_dataReceived (m : Minotaur Client) (data : List UInt8) :
    (m.dataReceived data).1.loggedin = true := by
  by_cases h : m.loggedin = true
  · rw [dataReceived_eq h]
    split <;> exact h
  · rw [dataReceived_login h]
    rfl

omit [DecidableEq Client] in
theorem loggedin_robotData (f : Fleet Robot Client) (r r' : Robot) (data : List UInt8) :
    ((f.robotData r data).1.robots r').loggedin =
      (decide (r' = r) || (f.robots r').loggedin) := by
  rw [robotData_robots]
  by_cases h : r' = r
  · rw [h, Function.update_self, loggedin_dataReceived]
    simp
  · rw [Function.update_of_ne h]
    simp [h]

theorem browserData_instances (py : Python) (me : Client) (f : Fleet Robot Client)
    (jdata : List UInt8) : (f.browserData py me jdata).fleet.instances = f.instances := by
  cases browser_cases py me f jdata with
  | dropped hnone hfleet hsent => rw [hfleet]
  | metrics hloads hrobot hmetrics hfleet hsent => rw [hfleet]
  | keys hloads hrobot hmetrics hkeys hfleet hsent => rw [hfleet]

theorem browserData_loggedin (py : Python) (me : Client) (f : Fleet Robot Client)
    (jdata : List UInt8) (r : Robot) :
    ((f.browserData py me jdata).fleet.robots r).loggedin = (f.robots r).loggedin := by
  cases browser_cases py me f jdata with
  | dropped hnone hfleet hsent => rw [hfleet]
  | @metrics data robot hloads hrobot hmetrics hfleet hsent =>
    rw [hfleet]
    show ((Function.update f.robots robot.2 _) r).loggedin = _
    by_cases h : r = robot.2
    · rw [h, Function.update_self]
      rfl
    · rw [Function.update_of_ne h]
  | keys hloads hrobot hmetrics hkeys hfleet hsent => rw [hfleet]

/-! ## One browser -/

/-- What one browser sees of the server. -/
def Fleet.view (f : Fleet Robot Client) (me : Client) : Server Client where
  instances := f.instances.map fun entry => (entry.1, f.robots entry.2)
  connected := f.connected me
  lastKeys := f.lastKeys me

/-- No two entries share a name or a robot, and those with a name are logged
in. -/
structure Fleet.Distinct (f : Fleet Robot Client) : Prop where
  names : ∀ e ∈ f.instances, ∀ e' ∈ f.instances, e.1 = e'.1 → e = e'
  robots : ∀ e ∈ f.instances, ∀ e' ∈ f.instances, e.2 = e'.2 → e = e'
  loggedin : ∀ e ∈ f.instances, (f.robots e.2).loggedin = true

omit [DecidableEq Robot] [DecidableEq Client] in
theorem view_robot (f : Fleet Robot Client) (me : Client) (data : List (Text × Json)) :
    (f.view me).robot data = (f.robot data).map fun entry => (entry.1, f.robots entry.2) := by
  unfold Server.robot Fleet.robot
  cases member data "robotid" with
  | none => rfl
  | some robotid =>
    cases robotid with
    | string text =>
      show (f.instances.map _).find? _ = _
      rw [List.find?_map]
      rfl
    | null | bool | int | float | array | object => rfl

omit [DecidableEq Robot] [DecidableEq Client] in
theorem mem_of_robot {f : Fleet Robot Client} {data : List (Text × Json)}
    {robot : List UInt8 × Robot} (h : f.robot data = some robot) : robot ∈ f.instances := by
  unfold Fleet.robot at h
  split at h
  · exact List.mem_of_find?_eq_some h
  · cases h

/-- The steps of one browser and of the server that it sees agree. -/
structure Agrees (me : Client) (instances : List (List UInt8 × Robot))
    (served : FleetReceived Robot Client) (received : Received Client) : Prop where
  server : served.fleet.view me = received.server
  raised : served.raised = received.raised
  sent : List.Forall₂ (fun s s' => s.2 = s'.2 ∧ (s'.1, s.1) ∈ instances)
    served.sent received.sent

omit [DecidableEq Robot] [DecidableEq Client] in
theorem forall₂_sent {f : Fleet Robot Client} {robot : List UInt8 × Robot}
    (h : robot ∈ f.instances) (commands : List SendCmd) :
    List.Forall₂ (fun (s : Robot × SendCmd) (s' : List UInt8 × SendCmd) =>
        s.2 = s'.2 ∧ (s'.1, s.1) ∈ f.instances)
      (commands.map fun c => (robot.2, c)) (commands.map fun c => (robot.1, c)) := by
  rw [List.forall₂_map_left_iff, List.forall₂_map_right_iff, List.forall₂_same]
  exact fun c _ => ⟨rfl, h⟩

theorem toRobot_view {f : Fleet Robot Client} (h : f.Distinct) (py : Python) (me : Client)
    {robot : List UInt8 × Robot} (hrobot : robot ∈ f.instances) (data : List (Text × Json)) :
    Agrees me f.instances (f.toRobot py me robot.2 data)
      ((f.view me).toRobot py me (robot.1, f.robots robot.2) data) := by
  unfold Fleet.toRobot Server.toRobot
  by_cases hmetrics : isMetricsRequest data = true
  · rw [if_pos hmetrics, if_pos hmetrics]
    refine ⟨?_, rfl, forall₂_sent hrobot _⟩
    have hentry : ∀ e ∈ f.instances,
        (e.1, Function.update f.robots robot.2 ((f.robots robot.2).requestMetrics me).1 e.2) =
          if e.1 = robot.1 then (e.1, ((f.robots robot.2).requestMetrics me).1)
          else (e.1, f.robots e.2) := by
      intro e he
      by_cases hname : e.1 = robot.1
      · rw [if_pos hname, h.names e he robot hrobot hname, Function.update_self]
      · have hne : e.2 ≠ robot.2 := fun heq => hname (h.robots e he robot hrobot heq ▸ rfl)
        rw [if_neg hname, Function.update_of_ne hne]
    have hinstances : f.instances.map (fun e =>
          (e.1, Function.update f.robots robot.2 ((f.robots robot.2).requestMetrics me).1 e.2)) =
        (f.instances.map fun e => (e.1, f.robots e.2)).map fun r =>
          if r.1 = robot.1 then (r.1, ((f.robots robot.2).requestMetrics me).1) else r := by
      rw [List.map_map]
      exact List.map_congr_left hentry
    simp only [Fleet.view, Server.mk.injEq, and_true]
    exact hinstances
  · rw [if_neg hmetrics, if_neg hmetrics]
    cases (gKeys data).operand with
    | none => exact ⟨rfl, rfl, .nil⟩
    | some keys =>
      refine ⟨?_, rfl, forall₂_sent hrobot _⟩
      simp only [Fleet.view, Function.update_self]

/-- For one browser the server is the one of a list of robots by their names. -/
theorem browserData_view {f : Fleet Robot Client} (h : f.Distinct) (py : Python) (me : Client)
    (jdata : List UInt8) :
    Agrees me f.instances (f.browserData py me jdata) ((f.view me).dataReceived py me jdata) := by
  have hview : { f with connected := Function.update f.connected me true }.view me =
      { f.view me with connected := true } := by
    simp only [Fleet.view, Function.update_self]
  have hdistinct : { f with connected := Function.update f.connected me true }.Distinct :=
    ⟨h.names, h.robots, h.loggedin⟩
  unfold Fleet.browserData Server.dataReceived
  cases py.loads jdata with
  | none => exact ⟨hview, rfl, .nil⟩
  | some message =>
    cases message with
    | object data =>
      have hrobotView : { f.view me with connected := true }.robot data =
          (f.robot data).map fun entry => (entry.1, f.robots entry.2) := by
        rw [← hview, view_robot]
        rfl
      have hconnected :
          { f with connected := Function.update f.connected me true }.robot data = f.robot data :=
        rfl
      dsimp only
      rw [hrobotView, hconnected]
      cases hrobot : f.robot data with
      | some robot =>
        dsimp only [Option.map_some]
        rw [← hview]
        exact toRobot_view hdistinct py me (mem_of_robot hrobot) data
      | none =>
        have hlength : (f.view me).instances.length = f.instances.length := List.length_map _
        rw [Option.map_none]
        dsimp only
        by_cases hsome : f.instances.length ≠ 0
        · rw [if_pos hsome, if_pos (hlength ▸ hsome)]
          cases member data "robotid" with
          | none => exact ⟨hview, rfl, .nil⟩
          | some robotid => exact ⟨hview, rfl, .nil⟩
        · rw [if_neg hsome, if_neg (hlength ▸ hsome)]
          exact ⟨hview, rfl, .nil⟩
    | null | bool | int | float | string | array => exact ⟨hview, rfl, .nil⟩

omit [DecidableEq Client] in
theorem Fleet.Distinct.robotData {f : Fleet Robot Client} (h : f.Distinct) (r : Robot)
    (data : List UInt8) : (f.robotData r data).1.Distinct := by
  have hloggedin : ∀ r', (f.robots r').loggedin = true →
      ((f.robotData r data).1.robots r').loggedin = true := by
    intro r' hlogged
    rw [loggedin_robotData, hlogged, Bool.or_true]
  by_cases hlogged : (f.robots r).loggedin = true
  · have hsame : (f.robotData r data).1.instances = f.instances := by
      rw [robotData_instances, if_pos hlogged]
    refine ⟨?_, ?_, ?_⟩
    · rw [hsame]
      exact h.names
    · rw [hsame]
      exact h.robots
    · rw [hsame]
      exact fun e he => hloggedin e.2 (h.loggedin e he)
  · have hnew : (f.robotData r data).1.instances = register f.instances data r := by
      rw [robotData_instances, if_neg hlogged]
    have hold : ∀ e ∈ f.instances.filter fun entry => entry.1 ≠ data,
        e ∈ f.instances ∧ e.1 ≠ data ∧ e.2 ≠ r := by
      intro e he
      obtain ⟨hmem, hname⟩ := List.mem_filter.1 he
      refine ⟨hmem, of_decide_eq_true hname, fun hr => ?_⟩
      rw [← hr] at hlogged
      exact hlogged (h.loggedin e hmem)
    refine ⟨?_, ?_, ?_⟩
    · rw [hnew]
      intro e he e' he' heq
      rcases List.mem_cons.1 he with hhead | he
      · rcases List.mem_cons.1 he' with hhead' | he'
        · rw [hhead, hhead']
        · rw [hhead] at heq
          exact absurd heq.symm (hold e' he').2.1
      · rcases List.mem_cons.1 he' with hhead' | he'
        · rw [hhead'] at heq
          exact absurd heq (hold e he).2.1
        · exact h.names e (hold e he).1 e' (hold e' he').1 heq
    · rw [hnew]
      intro e he e' he' heq
      rcases List.mem_cons.1 he with hhead | he
      · rcases List.mem_cons.1 he' with hhead' | he'
        · rw [hhead, hhead']
        · rw [hhead] at heq
          exact absurd heq.symm (hold e' he').2.2
      · rcases List.mem_cons.1 he' with hhead' | he'
        · rw [hhead'] at heq
          exact absurd heq (hold e he).2.2
        · exact h.robots e (hold e he).1 e' (hold e' he').1 heq
    · rw [hnew]
      intro e he
      rcases List.mem_cons.1 he with hhead | he
      · rw [hhead, loggedin_robotData]
        simp
      · exact hloggedin e.2 (h.loggedin e (hold e he).1)

theorem distinct_run (py : Python) (events : List (FleetEvent Robot Client)) :
    (Fleet.run py events).Distinct := by
  induction events using List.reverseRecOn with
  | nil =>
    have hnone : ∀ e : List UInt8 × Robot, e ∉ (Fleet.run py ([] : List (FleetEvent Robot Client))).instances :=
      fun e => List.not_mem_nil
    exact ⟨fun e he => absurd he (hnone e), fun e he => absurd he (hnone e),
      fun e he => absurd he (hnone e)⟩
  | append_singleton events e ih =>
    rw [runFleet_concat]
    cases e with
    | robot r data => exact ih.robotData r data
    | browser me jdata =>
      have hinstances : ((Fleet.run py events).step py (.browser me jdata)).instances =
          (Fleet.run py events).instances := browserData_instances ..
      refine ⟨?_, ?_, ?_⟩
      · rw [hinstances]
        exact ih.names
      · rw [hinstances]
        exact ih.robots
      · rw [hinstances]
        intro e he
        show ((((Fleet.run py events).browserData py me jdata).fleet).robots e.2).loggedin = true
        rw [browserData_loggedin]
        exact ih.loggedin e he

/-- In every run, a message of a browser does what it does to the server with
one browser: the same commands go to the robots of the same names, and the same
exception is raised. -/
theorem browser_of_run (py : Python) (events : List (FleetEvent Robot Client)) (me : Client)
    (jdata : List UInt8) :
    Agrees me (Fleet.run py events).instances ((Fleet.run py events).browserData py me jdata)
      (((Fleet.run py events).view me).dataReceived py me jdata) :=
  browserData_view (distinct_run py events) py me jdata

/-! ## A robot that has lost its name -/

/-- The commands go to a robot that has a name. -/
theorem sent_registered {py : Python} {me : Client} {f : Fleet Robot Client} {jdata : List UInt8}
    {r : Robot} {c : SendCmd} (h : (r, c) ∈ (f.browserData py me jdata).sent) :
    ∃ name, (name, r) ∈ f.instances := by
  have hto : ∀ {robot : List UInt8 × Robot} {data} {cmds : List SendCmd},
      f.robot data = some robot → (r, c) ∈ cmds.map (fun c => (robot.2, c)) →
        ∃ name, (name, r) ∈ f.instances := by
    intro robot data cmds hrobot hmem
    obtain ⟨c', -, hc'⟩ := List.mem_map.1 hmem
    rw [Prod.mk.injEq] at hc'
    rw [← hc'.1]
    exact ⟨robot.1, mem_of_robot hrobot⟩
  cases browser_cases py me f jdata with
  | dropped hnone hfleet hsent =>
    rw [hsent] at h
    cases h
  | metrics hloads hrobot hmetrics hfleet hsent =>
    rw [hsent] at h
    exact hto hrobot h
  | keys hloads hrobot hmetrics hkeys hfleet hsent =>
    rw [hsent] at h
    exact hto hrobot h

/-- The robot is logged in and has no name. -/
structure Replaced (r : Robot) (f : Fleet Robot Client) : Prop where
  loggedin : (f.robots r).loggedin = true
  gone : ∀ entry ∈ f.instances, entry.2 ≠ r

theorem Replaced.step {r : Robot} {f : Fleet Robot Client} (h : Replaced r f) (py : Python)
    (e : FleetEvent Robot Client) : Replaced r (f.step py e) := by
  obtain ⟨hloggedin, hgone⟩ := h
  cases e with
  | browser me jdata =>
    constructor
    · show ((f.browserData py me jdata).fleet.robots r).loggedin = true
      rw [browserData_loggedin, hloggedin]
    · show ∀ entry ∈ (f.browserData py me jdata).fleet.instances, entry.2 ≠ r
      rw [browserData_instances]
      exact hgone
  | robot r' data =>
    constructor
    · show ((f.robotData r' data).1.robots r).loggedin = true
      rw [loggedin_robotData, hloggedin, Bool.or_true]
    · rw [Fleet.step, robotData_instances]
      split
      · exact hgone
      · rename_i hnew
        intro entry hentry
        rcases List.mem_cons.1 hentry with rfl | hentry
        · rintro rfl
          exact hnew hloggedin
        · exact hgone entry (List.mem_filter.1 hentry).1

/-- A robot whose name another connection has taken never gets a command
again. -/
theorem replaced_silent (py : Python) {events more : List (FleetEvent Robot Client)} {r : Robot}
    (hloggedin : ((Fleet.run py events).robots r).loggedin = true)
    (hgone : ∀ entry ∈ (Fleet.run py events).instances, entry.2 ≠ r)
    (me : Client) (jdata : List UInt8) (c : SendCmd) :
    (r, c) ∉ ((Fleet.run py (events ++ more)).browserData py me jdata).sent := by
  have hreplaced : Replaced r (Fleet.run py (events ++ more)) := by
    induction more using List.reverseRecOn with
    | nil =>
      rw [List.append_nil]
      exact ⟨hloggedin, hgone⟩
    | append_singleton more e ih =>
      rw [← List.append_assoc, runFleet_concat]
      exact ih.step py e
  intro hsent
  obtain ⟨name, hname⟩ := sent_registered hsent
  exact hreplaced.gone _ hname rfl

/-- `json.loads`, as far as it reads `{"robotid":"Bull:1","command":48}`. -/
def requestPython : Python where
  loads jdata :=
    if jdata = (ascii "\x7b\"robotid\":\"Bull:1\",\"command\":48\x7d").map UInt8.ofNat then
      some (.object [(ascii "robotid", .string (ascii "Bull:1")), (ascii "command", .int 48)])
    else none
  intOfText _ := none
  encodes text := text.all (· < 128)

/-- Two robots log in as `Bull:1`. -/
def twoLogins : List (FleetEvent ℕ ℕ) := [.robot 0 loginBytes, .robot 1 loginBytes]

/-- The request for metrics goes to the second one. -/
theorem replaced_silent_twice :
    (0, (⟨0x30, 0x00, 0x00⟩ : SendCmd)) ∉
      ((Fleet.run requestPython (twoLogins ++ [])).browserData requestPython 0
        ((ascii "\x7b\"robotid\":\"Bull:1\",\"command\":48\x7d").map UInt8.ofNat)).sent :=
  replaced_silent requestPython (by decide) (by decide) 0 _ _

/-! ## The other browsers -/

/-- The key message that a text carries, with the robot that it goes to. -/
def Fleet.keyMessage (py : Python) (f : Fleet Robot Client) (jdata : List UInt8) :
    Option (Robot × KeyMessage) :=
  match py.loads jdata with
  | some (.object data) =>
    (f.robot data).bind fun robot =>
      if isMetricsRequest data then none
      else (gKeys data).operand.map fun keys => (robot.2, ⟨keys, speed py data⟩)
  | _ => none

/-- No request for metrics. -/
def isDrive (sent : Robot × SendCmd) : Bool := sent.2.command ≠ 0x30

omit [DecidableEq Robot] [DecidableEq Client] in
theorem keyMessage_sharing {f f' : Fleet Robot Client} (h : f.instances = f'.instances)
    (py : Python) (jdata : List UInt8) : f.keyMessage py jdata = f'.keyMessage py jdata := by
  have hrobot : ∀ data, f.robot data = f'.robot data := by
    intro data
    unfold Fleet.robot
    rw [h]
  unfold Fleet.keyMessage
  simp only [hrobot]

omit [DecidableEq Robot] in
theorem isDrive_keyCommands (r : Robot) (lastKeys : Option Int) (message : KeyMessage) :
    ((keyCommands lastKeys message).map fun c => (r, c)).filter isDrive =
      (keyCommands lastKeys message).map fun c => (r, c) := by
  have hcamera : ∀ c ∈ cameraCommand message.gKeys, c.command ≠ 0x30 := by
    intro c hc
    unfold cameraCommand at hc
    split_ifs at hc <;> simp only [List.mem_singleton, List.not_mem_nil] at hc <;> rw [hc] <;>
      decide
  have hdrive : (driveCommand message).command ≠ 0x30 := by
    show (0x01 : Int) ≠ 0x30
    decide
  have hall : ∀ c ∈ keyCommands lastKeys message, c.command ≠ 0x30 := by
    intro c hc
    unfold keyCommands at hc
    rcases List.mem_append.1 hc with hc | hc
    · cases lastKeys with
      | none => cases hc
      | some last =>
        dsimp only at hc
        split_ifs at hc
        · rw [List.mem_singleton.1 hc]
          exact hdrive
        · cases hc
    · split_ifs at hc
      · exact hcamera c hc
      · cases hc
  rw [List.filter_eq_self]
  intro sent hsent
  obtain ⟨c, hc, rfl⟩ := List.mem_map.1 hsent
  exact decide_eq_true (hall c hc)

/-- What a message does to the keys, and the commands for them. -/
theorem browserData_keys (py : Python) (me : Client) (f : Fleet Robot Client)
    (jdata : List UInt8) :
    (f.browserData py me jdata).fleet.lastKeys =
        (match f.keyMessage py jdata with
        | none => f.lastKeys
        | some (_, message) => Function.update f.lastKeys me (some message.gKeys)) ∧
      (f.browserData py me jdata).sent.filter isDrive =
        match f.keyMessage py jdata with
        | none => []
        | some (r, message) => (keyCommands (f.lastKeys me) message).map fun c => (r, c) := by
  cases browser_cases py me f jdata with
  | dropped hnone hfleet hsent =>
    have hkey : f.keyMessage py jdata = none := by
      unfold Fleet.keyMessage
      split
      · rename_i data hloads
        cases hrobot : f.robot data with
        | none => rfl
        | some robot =>
          obtain ⟨hmetrics, hkeys⟩ := hnone data robot hloads hrobot
          rw [Option.bind_some, hmetrics, hkeys]
          rfl
      · rfl
    rw [hkey, hfleet, hsent]
    exact ⟨rfl, rfl⟩
  | @metrics data robot hloads hrobot hmetrics hfleet hsent =>
    have hkey : f.keyMessage py jdata = none := by
      rw [Fleet.keyMessage, hloads]
      dsimp only
      rw [hrobot, Option.bind_some, if_pos hmetrics]
    rw [hkey, hfleet, hsent]
    refine ⟨rfl, ?_⟩
    show ((if _ then [⟨0x30, 0x00, 0x00⟩] else [] : List SendCmd).map fun c => (robot.2, c)).filter
      isDrive = []
    split <;> rfl
  | @keys data robot keys hloads hrobot hmetrics hkeys hfleet hsent =>
    have hkey : f.keyMessage py jdata = some (robot.2, ⟨keys, speed py data⟩) := by
      rw [Fleet.keyMessage, hloads]
      dsimp only
      rw [hrobot, Option.bind_some, hmetrics, hkeys]
      rfl
    rw [hkey, hfleet, hsent, isDrive_keyCommands]
    exact ⟨rfl, rfl⟩

/-- The commands for the keys of one browser. -/
def Fleet.commands (py : Python) (me : Client) :
    Fleet Robot Client → List (FleetEvent Robot Client) → List (Robot × SendCmd)
  | _, [] => []
  | f, e :: events =>
    (match e with
      | .robot _ _ => []
      | .browser you jdata =>
        if you = me then (f.browserData py me jdata).sent.filter isDrive else []) ++
      Fleet.commands py me (f.step py e) events

/-- Another browser sends a message. -/
def FleetEvent.ofOther (me : Client) : FleetEvent Robot Client → Bool
  | .robot _ _ => false
  | .browser you _ => you ≠ me

/-- What the commands of a browser depend on. -/
structure Alike (me : Client) (f f' : Fleet Robot Client) : Prop where
  instances : f.instances = f'.instances
  loggedin : ∀ r, (f.robots r).loggedin = (f'.robots r).loggedin
  lastKeys : f.lastKeys me = f'.lastKeys me

theorem Alike.skip {me you : Client} {f f' : Fleet Robot Client} (h : Alike me f f')
    (hother : you ≠ me) (py : Python) (jdata : List UInt8) :
    Alike me (f.browserData py you jdata).fleet f' := by
  refine ⟨by rw [browserData_instances, h.instances], fun r => ?_, ?_⟩
  · rw [browserData_loggedin, h.loggedin]
  · rw [(browserData_keys py you f jdata).1, ← h.lastKeys]
    cases f.keyMessage py jdata with
    | none => rfl
    | some sent => exact Function.update_of_ne (Ne.symm hother) ..

theorem Alike.browserData {me : Client} {f f' : Fleet Robot Client} (h : Alike me f f')
    (py : Python) (jdata : List UInt8) :
    Alike me (f.browserData py me jdata).fleet (f'.browserData py me jdata).fleet ∧
      (f.browserData py me jdata).sent.filter isDrive =
        (f'.browserData py me jdata).sent.filter isDrive := by
  obtain ⟨hlast, hsent⟩ := browserData_keys py me f jdata
  obtain ⟨hlast', hsent'⟩ := browserData_keys py me f' jdata
  rw [keyMessage_sharing h.instances] at hlast hsent
  constructor
  · refine ⟨?_, fun r => ?_, ?_⟩
    · rw [browserData_instances, browserData_instances, h.instances]
    · rw [browserData_loggedin, browserData_loggedin, h.loggedin]
    · rw [hlast, hlast']
      cases f'.keyMessage py jdata with
      | none => exact h.lastKeys
      | some sent =>
        dsimp only
        rw [Function.update_self, Function.update_self]
  · rw [hsent, hsent', h.lastKeys]

omit [DecidableEq Client] in
theorem Alike.robotData {me : Client} {f f' : Fleet Robot Client} (h : Alike me f f') (r : Robot)
    (data : List UInt8) : Alike me (f.robotData r data).1 (f'.robotData r data).1 := by
  refine ⟨?_, fun r' => ?_, h.lastKeys⟩
  · rw [robotData_instances, robotData_instances, h.loggedin, h.instances]
  · rw [loggedin_robotData, loggedin_robotData, h.loggedin]

/-- The commands for the keys of a browser, and the robots that they go to, do
not depend on the other browsers. -/
theorem commands_of_browser (py : Python) (me : Client)
    (events : List (FleetEvent Robot Client)) :
    Fleet.start.commands py me events =
      Fleet.start.commands py me (events.filter fun e => !e.ofOther me) := by
  suffices hall : ∀ f f' : Fleet Robot Client, Alike me f f' → f.commands py me events =
      f'.commands py me (events.filter fun e => !e.ofOther me) from
    hall _ _ ⟨rfl, fun _ => rfl, rfl⟩
  induction events with
  | nil => exact fun _ _ _ => rfl
  | cons e events ih =>
    intro f f' h
    cases e with
    | robot r data =>
      rw [List.filter_cons_of_pos rfl, Fleet.commands, Fleet.commands]
      exact ih _ _ (h.robotData r data)
    | browser you jdata =>
      by_cases hme : you = me
      · obtain ⟨halike, hsent⟩ := h.browserData py jdata
        rw [hme, List.filter_cons_of_pos (by simp [FleetEvent.ofOther]), Fleet.commands,
          Fleet.commands, if_pos rfl, if_pos rfl, hsent]
        exact congrArg _ (ih _ _ halike)
      · rw [List.filter_cons_of_neg (by simp [FleetEvent.ofOther, hme]), Fleet.commands, if_neg hme,
          List.nil_append]
        exact ih _ _ (h.skip hme py jdata)

/-! ## Names and requests in the past

A past is a list of events with the latest one first. -/

/-- The connection has sent a chunk, and so it is logged in. -/
def spoken (r : Robot) (past : List (FleetEvent Robot Client)) : Bool :=
  past.any fun e =>
    match e with
    | .robot r' _ => r' = r
    | .browser _ _ => false

/-- The robot that logged in last under a name. -/
def holder (name : List UInt8) : List (FleetEvent Robot Client) → Option Robot
  | [] => none
  | .robot r data :: past =>
    if data = name ∧ spoken r past = false then some r else holder name past
  | .browser _ _ :: past => holder name past

/-- A text as a name. -/
def nameOf (text : Text) : Option (List UInt8) :=
  if text.all (· < 128) then some (text.map UInt8.ofNat) else none

/-- The robot that a message names. -/
def addressee (past : List (FleetEvent Robot Client)) (data : List (Text × Json)) :
    Option Robot :=
  match member data "robotid" with
  | some (.string text) => (nameOf text).bind fun name => holder name past
  | _ => none

/-- The robot whose metrics a message asks for. -/
def asksFor (py : Python) (past : List (FleetEvent Robot Client)) (jdata : List UInt8) :
    Option Robot :=
  match py.loads jdata with
  | some (.object data) => if isMetricsRequest data then addressee past data else none
  | _ => none

/-- The browser has asked for the metrics of the robot, and the robot has sent no
packet since. -/
def waits (py : Python) (me : Client) (r : Robot) : List (FleetEvent Robot Client) → Bool
  | [] => false
  | .robot r' data :: past => if r' = r ∧ isPacket data = true then false else waits py me r past
  | .browser you jdata :: past =>
    (decide (you = me) && decide (asksFor py past jdata = some r)) || waits py me r past

theorem spells_iff {text : Text} {name : List UInt8} :
    spells text name = true ↔ nameOf text = some name := by
  have hback : ∀ bytes : List UInt8, (bytes.map UInt8.toNat).map UInt8.ofNat = bytes := by
    intro bytes
    rw [List.map_map]
    exact List.map_id'' (fun b => UInt8.ofNat_toNat) bytes
  unfold spells nameOf
  rw [Bool.and_eq_true, beq_iff_eq, List.all_eq_true]
  constructor
  · rintro ⟨hname, rfl⟩
    have hall : (name.map UInt8.toNat).all (· < 128) = true := by
      rw [List.all_map, List.all_eq_true]
      intro b hb
      have hsmall := of_decide_eq_true (hname b hb)
      exact decide_eq_true (UInt8.lt_iff_toNat_lt.1 hsmall)
    rw [if_pos hall, hback]
  · intro h
    split at h
    · rename_i hall
      rw [Option.some.injEq] at h
      rw [List.all_eq_true] at hall
      have htoNat : ∀ n ∈ text, (UInt8.ofNat n).toNat = n := by
        intro n hn
        have hsmall := of_decide_eq_true (hall n hn)
        rw [UInt8.toNat_ofNat']
        omega
      rw [← h]
      refine ⟨fun b hb => ?_, ?_⟩
      · obtain ⟨n, hn, rfl⟩ := List.mem_map.1 hb
        have hsmall := of_decide_eq_true (hall n hn)
        apply decide_eq_true
        rw [UInt8.lt_iff_toNat_lt, htoNat n hn]
        exact hsmall
      · rw [List.map_map]
        exact ((List.map_congr_left htoNat).trans (List.map_id text)).symm
    · cases h

omit [DecidableEq Client] in
theorem spoken_of_holder {name : List UInt8} {past : List (FleetEvent Robot Client)} {r : Robot}
    (h : holder name past = some r) : spoken r past = true := by
  induction past with
  | nil => cases h
  | cons e past ih =>
    cases e with
    | robot r' data =>
      rw [holder] at h
      show (decide (r' = r) || spoken r past) = true
      rw [Bool.or_eq_true, decide_eq_true_iff]
      split_ifs at h
      · exact Or.inl (Option.some.inj h)
      · exact Or.inr (ih h)
    | browser me jdata => exact ih h

/-- The state of the server, and the past. -/
structure Tracked (py : Python) (past : List (FleetEvent Robot Client))
    (f : Fleet Robot Client) : Prop where
  names : ∀ name, (f.instances.find? fun entry => entry.1 = name).map Prod.snd = holder name past
  loggedin : ∀ r, (f.robots r).loggedin = spoken r past
  waiting : ∀ r me, me ∈ (f.robots r).waiting ↔ waits py me r past = true
  -- nobody has asked a robot without a name
  silent : ∀ r, spoken r past = false → (f.robots r).waiting = ∅

omit [DecidableEq Robot] [DecidableEq Client] in
theorem robot_eq_find (f : Fleet Robot Client) (data : List (Text × Json)) :
    f.robot data =
      match member data "robotid" with
      | some (.string text) =>
        (nameOf text).bind fun name => f.instances.find? fun entry => entry.1 = name
      | _ => none := by
  have hfind : ∀ text : Text, (f.instances.find? fun entry => spells text entry.1) =
      (nameOf text).bind fun name => f.instances.find? fun entry => entry.1 = name := by
    intro text
    cases hname : nameOf text with
    | none =>
      rw [Option.bind_none, List.find?_eq_none]
      intro entry _
      rw [spells_iff, hname]
      simp
    | some name =>
      rw [Option.bind_some]
      congr 1
      funext entry
      rw [Bool.eq_iff_iff, spells_iff, hname, decide_eq_true_iff, Option.some.injEq]
      exact eq_comm
  unfold Fleet.robot
  split
  · rename_i text hmember
    exact hfind text
  · rfl

theorem Tracked.robot {py : Python} {past : List (FleetEvent Robot Client)}
    {f : Fleet Robot Client} (h : Tracked py past f) (data : List (Text × Json)) :
    (f.robot data).map Prod.snd = addressee past data := by
  rw [robot_eq_find, addressee]
  split
  · rename_i text hmember
    cases hname : nameOf text with
    | none => rfl
    | some name =>
      rw [Option.bind_some, Option.bind_some]
      exact h.names name
  · rfl

omit [DecidableEq Robot] [DecidableEq Client] in
theorem mem_waiting_dataReceived {m : Minotaur Client} (h : m.loggedin = true)
    (data : List UInt8) (me : Client) : me ∈ (m.dataReceived data).1.waiting ↔
      me ∈ m.waiting ∧ ¬isPacket data = true := by
  rw [dataReceived_eq h]
  cases hrequests : m.requests with
  | none =>
    rw [Option.isSome_none, Bool.false_and, if_neg Bool.false_ne_true, Minotaur.waiting, hrequests]
    simp
  | some clients =>
    rw [Option.isSome_some, Bool.true_and]
    by_cases hpacket : isPacket data = true
    · rw [if_pos hpacket]
      simp [Minotaur.waiting, hpacket]
    · rw [if_neg hpacket]
      simp [hpacket]

theorem Tracked.robotData {py : Python} {past : List (FleetEvent Robot Client)}
    {f : Fleet Robot Client} (h : Tracked py past f) (r : Robot) (data : List UInt8) :
    Tracked py (.robot r data :: past) (f.robotData r data).1 := by
  obtain ⟨hnames, hloggedin, hwaiting, hsilent⟩ := h
  have hspoken : ∀ r', spoken r' (.robot r data :: past) = (decide (r = r') || spoken r' past) :=
    fun r' => rfl
  refine ⟨fun name => ?_, fun r' => ?_, fun r' me => ?_, fun r' hnot => ?_⟩
  · rw [robotData_instances, holder, hloggedin]
    by_cases hnew : spoken r past = true
    · rw [if_pos hnew, if_neg fun hboth => by simp [hnew] at hboth]
      exact hnames name
    · rw [if_neg hnew]
      rw [Bool.not_eq_true] at hnew
      by_cases hname : data = name
      · rw [if_pos ⟨hname, hnew⟩, register, List.find?_cons_of_pos (by simpa using hname)]
        rfl
      · rw [if_neg fun hboth => hname hboth.1, register,
          List.find?_cons_of_neg (by simpa using hname), List.find?_filter, ← hnames name]
        congr 2
        funext entry
        by_cases hentry : entry.1 = name
        · simp [hentry, Ne.symm hname]
        · simp [hentry]
  · rw [loggedin_robotData, hspoken, hloggedin]
    congr 1
    exact decide_eq_decide.2 eq_comm
  · rw [robotData_robots, waits]
    by_cases hr : r' = r
    · subst hr
      rw [Function.update_self]
      by_cases hlogged : (f.robots r').loggedin = true
      · rw [mem_waiting_dataReceived hlogged, hwaiting]
        by_cases hpacket : isPacket data = true
        · simp [hpacket]
        · simp [hpacket]
      · have hnone : (f.robots r').waiting = ∅ :=
          hsilent r' (by rw [← hloggedin]; simpa using hlogged)
        have hpast : waits py me r' past = false := by
          rw [← Bool.not_eq_true, ← hwaiting, hnone]
          simp
        have hlogin : ((f.robots r').login data).waiting = ∅ := hnone
        rw [dataReceived_login hlogged, hlogin, hpast, ite_self]
        simp
    · rw [Function.update_of_ne hr, if_neg fun hboth => hr hboth.1.symm]
      exact hwaiting r' me
  · rw [hspoken, Bool.or_eq_false_iff, decide_eq_false_iff_not] at hnot
    rw [robotData_robots, Function.update_of_ne (Ne.symm hnot.1)]
    exact hsilent r' hnot.2

theorem Tracked.browserData {py : Python} {past : List (FleetEvent Robot Client)}
    {f : Fleet Robot Client} (h : Tracked py past f) (me : Client) (jdata : List UInt8) :
    Tracked py (.browser me jdata :: past) (f.browserData py me jdata).fleet := by
  obtain ⟨hnames, hloggedin, hwaiting, hsilent⟩ := id h
  have hwaits : ∀ r you, waits py you r (.browser me jdata :: past) =
      ((decide (me = you) && decide (asksFor py past jdata = some r)) || waits py you r past) :=
    fun r you => rfl
  -- a message that asks for no metrics
  have hkept : asksFor py past jdata = none →
      (f.browserData py me jdata).fleet.robots = f.robots →
        Tracked py (.browser me jdata :: past) (f.browserData py me jdata).fleet := by
    intro hnone hrobots
    refine ⟨fun name => ?_, fun r => ?_, fun r you => ?_, fun r hnot => ?_⟩
    · rw [browserData_instances]
      exact hnames name
    · rw [hrobots]
      exact hloggedin r
    · rw [hrobots, hwaits, hnone]
      simpa using hwaiting r you
    · rw [hrobots]
      exact hsilent r hnot
  cases browser_cases py me f jdata with
  | dropped hdropped hfleet hsent =>
    refine hkept ?_ (by rw [hfleet])
    unfold asksFor
    split
    · rename_i data hloads
      rw [← h.robot]
      cases hrobot : f.robot data with
      | none => simp
      | some robot =>
        rw [(hdropped data robot hloads hrobot).1]
        rfl
    · rfl
  | keys hloads hrobot hmetrics hkeys hfleet hsent =>
    refine hkept ?_ (by rw [hfleet])
    rw [asksFor, hloads]
    dsimp only
    rw [hmetrics]
    rfl
  | @metrics data robot hloads hrobot hmetrics hfleet hsent =>
    have hasks : asksFor py past jdata = some robot.2 := by
      rw [asksFor, hloads]
      dsimp only
      rw [if_pos hmetrics, ← h.robot, hrobot]
      rfl
    have hrobots : (f.browserData py me jdata).fleet.robots = Function.update f.robots robot.2
        ((f.robots robot.2).requestMetrics me).1 := by rw [hfleet]
    refine ⟨fun name => ?_, fun r => ?_, fun r you => ?_, fun r hnot => ?_⟩
    · rw [browserData_instances]
      exact hnames name
    · rw [browserData_loggedin]
      exact hloggedin r
    · rw [hrobots, hwaits, hasks, Bool.or_eq_true, Bool.and_eq_true, decide_eq_true_iff,
        decide_eq_true_iff, Option.some.injEq, ← hwaiting]
      by_cases hr : r = robot.2
      · rw [hr, Function.update_self, request_waiting, Finset.mem_insert]
        constructor
        · rintro (hyou | hyou)
          · exact Or.inl ⟨hyou.symm, rfl⟩
          · exact Or.inr hyou
        · rintro (⟨hyou, -⟩ | hyou)
          · exact Or.inl hyou.symm
          · exact Or.inr hyou
      · rw [Function.update_of_ne hr]
        exact ⟨Or.inr, fun hor => hor.resolve_left fun hboth => hr hboth.2.symm⟩
    · have hspoken : spoken robot.2 past = true := by
        have haddressee : addressee past data = some robot.2 := by
          rw [← h.robot, hrobot]
          rfl
        unfold addressee at haddressee
        split at haddressee
        · obtain ⟨name, -, hholder⟩ := Option.bind_eq_some_iff.1 haddressee
          exact spoken_of_holder hholder
        · cases haddressee
      have hr : r ≠ robot.2 := by
        rintro rfl
        have hnot' : spoken robot.2 past = false := hnot
        rw [hspoken] at hnot'
        cases hnot'
      rw [hrobots, Function.update_of_ne hr]
      exact hsilent r hnot

theorem tracked_run (py : Python) (events : List (FleetEvent Robot Client)) :
    Tracked py events.reverse (Fleet.run py events) := by
  induction events using List.reverseRecOn with
  | nil =>
    refine ⟨fun name => rfl, fun r => rfl, fun r me => ?_, fun r _ => rfl⟩
    show me ∈ (∅ : Finset Client) ↔ false = true
    simp
  | append_singleton events e ih =>
    rw [runFleet_concat, List.reverse_append]
    cases e with
    | robot r data => exact ih.robotData r data
    | browser me jdata => exact ih.browserData me jdata

omit [DecidableEq Client] in
/-- What a robot sends is written to browsers exactly if it is logged in, has been
asked once, and sends a metrics packet. -/
theorem answer_iff (f : Fleet Robot Client) (r : Robot) (data : List UInt8)
    (answer : Answer Client) :
    (f.robotData r data).2 = some answer ↔
      ((f.robots r).loggedin = true ∧ (f.robots r).requests.isSome = true) ∧
        isPacket data = true ∧
          answer = ⟨(f.robots r).waiting, metricsDict (unpackFields metricsFormat data)⟩ := by
  rw [robotData_answer]
  by_cases hlogged : (f.robots r).loggedin = true
  · rw [dataReceived_eq hlogged]
    by_cases hboth : ((f.robots r).requests.isSome && isPacket data) = true
    · obtain ⟨hrequests, hpacket⟩ := (Bool.and_eq_true_iff.1 hboth)
      rw [if_pos hboth, Option.some.injEq]
      constructor
      · intro h
        exact ⟨⟨hlogged, hrequests⟩, hpacket, h.symm⟩
      · intro h
        exact h.2.2.symm
    · rw [if_neg hboth]
      constructor
      · intro h
        cases h
      · intro h
        exact absurd (Bool.and_eq_true_iff.2 ⟨h.1.2, h.2.1⟩) hboth
  · rw [dataReceived_login hlogged]
    constructor
    · intro h
      cases h
    · intro h
      exact absurd h.1.1 hlogged

/-- What a robot sends is written to a browser as metrics exactly if it is a
metrics packet and the browser waits: it has asked for the metrics of a name
that the robot had then, and the robot has sent no packet since. -/
theorem metrics_delivered_iff (py : Python) (events : List (FleetEvent Robot Client)) (r : Robot)
    (data : List UInt8) (me : Client) (metrics : List (String × Value)) :
    (∃ answer, ((Fleet.run py events).robotData r data).2 = some answer ∧
        me ∈ answer.clients ∧ answer.metrics = metrics) ↔
      waits py me r events.reverse = true ∧ isPacket data = true ∧
        metrics = metricsDict (unpackFields metricsFormat data) := by
  have htracked := tracked_run py events
  rw [← htracked.waiting]
  constructor
  · rintro ⟨answer, hanswer, hme, rfl⟩
    obtain ⟨-, hpacket, rfl⟩ := (answer_iff ..).1 hanswer
    exact ⟨hme, hpacket, rfl⟩
  · rintro ⟨hme, hpacket, rfl⟩
    have hlogged : ((Fleet.run py events).robots r).loggedin = true := by
      by_contra hnot
      rw [Bool.not_eq_true, htracked.loggedin] at hnot
      rw [htracked.silent r hnot] at hme
      simp at hme
    have hrequests : ((Fleet.run py events).robots r).requests.isSome = true := by
      by_contra hnot
      rw [Bool.not_eq_true, Option.isSome_eq_false_iff, Option.isNone_iff_eq_none] at hnot
      rw [Minotaur.waiting, hnot] at hme
      simp at hme
    exact ⟨_, (answer_iff ..).2 ⟨⟨hlogged, hrequests⟩, hpacket, rfl⟩, hme, rfl⟩

end MinotaurRobot.Cnc
