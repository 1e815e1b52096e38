import Mathlib.Data.Rat.Defs
import MinotaurRobot.Cnc.Keys
import MinotaurRobot.Cnc.Server

/-!
# The messages of the web clients

`WebsocketProtocol.dataReceived` of `cnc.py`, from the text of a message on.
The text may be anything.  What Python raises where the code does not catch it
is part of the result, and what it did before stays done.

`ignoresMalformed_iff` gives the messages that are handled as they should be.
Everything else ends in an exception, up to a `gKeys` that is a truth value:
that one is taken for `0` or `1`.
-/

namespace MinotaurRobot.Cnc

/-! ## Python -/

/-- A `unicode` text, as its code points. -/
abbrev Text := List Nat

def ascii (s : String) : Text := s.toList.map Char.toNat

/-- What `json.loads` returns. -/
inductive Json where
  | null
  | bool (b : Bool)
  | int (n : Int)
  /-- `none` is infinite or not a number. -/
  | float (value : Option ℚ)
  | string (text : Text)
  | array (items : List Json)
  | object (members : List (Text × Json))

/-- The number of a truth value. -/
def ofBool (b : Bool) : Int := if b then 1 else 0

/-- `value == n`. -/
def Json.eqInt (value : Json) (n : Int) : Bool :=
  match value with
  | .int m => m == n
  | .bool b => ofBool b == n
  | .float (some q) => q == n
  | _ => false

/-- The operand of `&`.  Other types raise a `TypeError`. -/
def Json.operand : Json → Option Int
  | .int n => some n
  | .bool b => some (ofBool b)
  | _ => none

/-- What `dataReceived` does not catch. -/
inductive Raised where
  | attributeError
  | keyError
  | unicodeEncodeError
  | typeError
  deriving DecidableEq, Repr

/-- The parts of Python that depend on its library and on the terminal. -/
structure Python where
  /-- `json.loads(jdata.strip())`.  `none` is an exception. -/
  loads : List UInt8 → Option Json
  /-- `int(text)`. -/
  intOfText : Text → Option Int
  /-- The encoding of `stdout` has the text. -/
  encodes : Text → Bool

/-- `int(value)`. -/
def Python.int (py : Python) : Json → Option Int
  | .int n => some n
  | .bool b => some (ofBool b)
  | .float (some q) => some (q.num.tdiv q.den)
  | .string text => py.intOfText text
  | _ => none

/-- `print value`.  Values other than texts are printed by their `repr`. -/
def Python.print (py : Python) : Json → Option Raised
  | .string text => if py.encodes text then none else some .unicodeEncodeError
  | _ => none

/-! ## `cnc.py` -/

/-- `data[key]`, if the key is there. -/
def member (data : List (Text × Json)) (key : String) : Option Json := data.lookup (ascii key)

/-- A text equals the bytes of a name if these are its `ASCII` characters. -/
def spells (text : Text) (name : List UInt8) : Bool :=
  name.all (· < 128) && text == name.map UInt8.toNat

/-- `Minotaur.instances`, and the `WebsocketProtocol` of one client. -/
structure Server (Client : Type) where
  instances : List (List UInt8 × Minotaur Client)
  connected : Bool
  lastKeys : Option Int

/-- What one message did: the commands sent, with the names of the robots, and
the exception. -/
structure Received (Client : Type) where
  server : Server Client
  sent : List (List UInt8 × SendCmd) := []
  raised : Option Raised := none

section Code

variable {Client : Type} [DecidableEq Client]

/-- The robot that `data['robotid']` names. -/
def Server.robot (s : Server Client) (data : List (Text × Json)) :
    Option (List UInt8 × Minotaur Client) :=
  match member data "robotid" with
  | some (.string text) => s.instances.find? fun r => spells text r.1
  | _ => none

/-- `'command' in data.keys() and data['command'] == 0x30`. -/
def isMetricsRequest (data : List (Text × Json)) : Bool :=
  match member data "command" with
  | some command => command.eqInt 0x30
  | none => false

/-- `data['gKeys']`, with `0` for a missing one. -/
def gKeys (data : List (Text × Json)) : Json :=
  match member data "gKeys" with
  | none | some .null => .int 0
  | some keys => keys

/-- `int(data['speed'])`, with `0` where it raises. -/
def speed (py : Python) (data : List (Text × Json)) : Int :=
  ((member data "speed").bind py.int).getD 0

/-- A message to a robot that is logged in. -/
def Server.toRobot (py : Python) (me : Client) (s : Server Client)
    (robot : List UInt8 × Minotaur Client) (data : List (Text × Json)) : Received Client :=
  if isMetricsRequest data then
    let (minotaur, commands) := robot.2.requestMetrics me
    { server :=
        { s with
          instances := s.instances.map fun r => if r.1 = robot.1 then (r.1, minotaur) else r }
      sent := commands.map fun c => (robot.1, c) }
  else
    match (gKeys data).operand with
    -- `data['gKeys'] & 16`, in front of everything that is sent
    | none => { server := s, raised := some .typeError }
    | some keys =>
      { server := { s with lastKeys := some keys }
        sent := (keyCommands s.lastKeys ⟨keys, speed py data⟩).map fun c => (robot.1, c) }

/-- `WebsocketProtocol.dataReceived`. -/
def Server.dataReceived (py : Python) (me : Client) (s : Server Client) (jdata : List UInt8) :
    Received Client :=
  let s := { s with connected := true }
  match py.loads jdata with
  | none => { server := s }
  | some (.object data) =>
    match s.robot data with
    | some robot => s.toRobot py me robot data
    | none =>
      if s.instances.length ≠ 0 then
        -- the error branch prints `data['robotid']`
        match member data "robotid" with
        | none => { server := s, raised := some .keyError }
        | some robotid => { server := s, raised := py.print robotid }
      else { server := s }
  -- `data.keys()`
  | some _ => { server := s, raised := some .attributeError }

end Code

/-! ## Malformed messages -/

variable {Client : Type} [DecidableEq Client]

/-- The message names a robot that is logged in. -/
def Server.Names (s : Server Client) (message : Option Json) : Prop :=
  ∃ data, message = some (.object data) ∧ (s.robot data).isSome

/-- The message is no metrics request, and carries a `gKeys` that is neither
null nor an integer. -/
def BadKeys (message : Option Json) : Prop :=
  ∃ data keys, message = some (.object data) ∧ isMetricsRequest data = false ∧
    member data "gKeys" = some keys ∧ keys ≠ .null ∧ ∀ n, keys ≠ .int n

/-- No exception, and a malformed message does nothing. -/
def IgnoresMalformed (py : Python) (me : Client) (s : Server Client) (jdata : List UInt8) : Prop :=
  (s.dataReceived py me jdata).raised = none ∧
    (¬ s.Names (py.loads jdata) ∨ BadKeys (py.loads jdata) →
      (s.dataReceived py me jdata).sent = [] ∧
        (s.dataReceived py me jdata).server.lastKeys = s.lastKeys)

/-- A `gKeys` that `&` takes.  A truth value must be the keys already held. -/
def keysAccepted (lastKeys : Option Int) : Option Json → Prop
  | none | some .null | some (.int _) => True
  | some (.bool b) => lastKeys = some (ofBool b)
  | some _ => False

/-- The messages that are handled. -/
def Accepts (py : Python) (s : Server Client) : Option Json → Prop
  | none => True
  | some (.object data) =>
    match s.robot data with
    | some _ => isMetricsRequest data = true ∨ keysAccepted s.lastKeys (member data "gKeys")
    | none => s.instances = [] ∨ ∃ robotid, member data "robotid" = some robotid ∧
        py.print robotid = none
  | some _ => False

/-! ## What the code does with them -/

/-- The keys that are held already send nothing. -/
theorem keyCommands_same (b : Bool) (speed : Int) :
    keyCommands (some (ofBool b)) ⟨ofBool b, speed⟩ = [] := by
  cases b <;> rfl

theorem toRobot_keys (py : Python) (me : Client) {s : Server Client}
    {robot : List UInt8 × Minotaur Client} {data : List (Text × Json)}
    (hkeys : isMetricsRequest data = false) {keys : Int}
    (hoperand : (gKeys data).operand = some keys) :
    s.toRobot py me robot data =
      { server := { s with lastKeys := some keys }
        sent := (keyCommands s.lastKeys ⟨keys, speed py data⟩).map fun c => (robot.1, c) } := by
  rw [Server.toRobot, hkeys, if_neg Bool.false_ne_true, hoperand]

/-- Key messages with an integer are those of `Session`. -/
theorem toRobot_session (py : Python) (me : Client) {s : Server Client}
    {robot : List UInt8 × Minotaur Client} {data : List (Text × Json)}
    (hkeys : isMetricsRequest data = false) {keys : Int} (hint : gKeys data = .int keys)
    (sent : List SendCmd) :
    (⟨(s.toRobot py me robot data).server.lastKeys,
        sent ++ (s.toRobot py me robot data).sent.map Prod.snd⟩ : Session) =
      Session.dataReceived ⟨s.lastKeys, sent⟩ ⟨keys, speed py data⟩ := by
  have hoperand : (gKeys data).operand = some keys := by rw [hint]; rfl
  have hsnd : (Prod.snd ∘ fun c : SendCmd => (robot.1, c)) = id := rfl
  rw [toRobot_keys py me hkeys hoperand]
  dsimp only
  rw [List.map_map, hsnd, List.map_id]
  rfl

theorem toRobot_raises (py : Python) (me : Client) {s : Server Client}
    {robot : List UInt8 × Minotaur Client} {data : List (Text × Json)}
    (hkeys : isMetricsRequest data = false) (hoperand : (gKeys data).operand = none) :
    (s.toRobot py me robot data).raised = some .typeError := by
  rw [Server.toRobot, hkeys, if_neg Bool.false_ne_true, hoperand]

theorem gKeys_eq {data : List (Text × Json)} {keys : Json} (h : member data "gKeys" = some keys)
    (hnull : keys ≠ .null) : gKeys data = keys := by
  unfold gKeys
  rw [h]
  cases keys <;> first | rfl | exact absurd rfl hnull

theorem not_badKeys_of_metrics {data : List (Text × Json)} (h : isMetricsRequest data = true) :
    ¬ BadKeys (some (.object data)) := by
  rintro ⟨data', keys, hdata, hkeys, -⟩
  cases hdata
  rw [h] at hkeys
  exact absurd hkeys (by decide)

theorem not_badKeys {data : List (Text × Json)} {keys : Option Json}
    (hmember : member data "gKeys" = keys)
    (h : keys = none ∨ keys = some .null ∨ ∃ n, keys = some (.int n)) :
    ¬ BadKeys (some (.object data)) := by
  rintro ⟨data', value, hdata, -, hvalue, hnull, hint⟩
  cases hdata
  rw [hmember] at hvalue
  subst hvalue
  rcases h with hnone | hsome | ⟨n, hsome⟩
  · exact absurd hnone (Option.some_ne_none value)
  · exact hnull (Option.some.inj hsome)
  · exact hint n (Option.some.inj hsome)

/-- Of a good message nothing is asked but that it raises nothing. -/
theorem toRobot_good (py : Python) (me : Client) {s : Server Client}
    {robot : List UInt8 × Minotaur Client} {data : List (Text × Json)}
    (hkeys : isMetricsRequest data = false) {n : Int} (hoperand : (gKeys data).operand = some n)
    (hgood : ¬ BadKeys (some (.object data))) :
    (s.toRobot py me robot data).raised = none ∧
      (BadKeys (some (.object data)) → (s.toRobot py me robot data).sent = [] ∧
        (s.toRobot py me robot data).server.lastKeys = s.lastKeys) := by
  refine ⟨?_, fun hbad => absurd hbad hgood⟩
  rw [toRobot_keys py me hkeys hoperand]

/-- The types of `gKeys` one after the other. -/
theorem toRobot_ignores_iff_keys (py : Python) (me : Client) (s : Server Client)
    (robot : List UInt8 × Minotaur Client) {data : List (Text × Json)}
    (hkeys : isMetricsRequest data = false) :
    ((s.toRobot py me robot data).raised = none ∧
        (BadKeys (some (.object data)) → (s.toRobot py me robot data).sent = [] ∧
          (s.toRobot py me robot data).server.lastKeys = s.lastKeys)) ↔
      keysAccepted s.lastKeys (member data "gKeys") := by
  cases hmember : member data "gKeys" with
  | none =>
    have hzero : gKeys data = .int 0 := by rw [gKeys, hmember]
    have hoperand : (gKeys data).operand = some 0 := by rw [hzero]; rfl
    exact iff_of_true (toRobot_good py me hkeys hoperand (not_badKeys hmember (Or.inl rfl))) trivial
  | some keys =>
    cases keys with
    | null =>
      have hzero : gKeys data = .int 0 := by rw [gKeys, hmember]
      have hoperand : (gKeys data).operand = some 0 := by rw [hzero]; rfl
      have hgood := not_badKeys hmember (Or.inr (Or.inl rfl))
      exact iff_of_true (toRobot_good py me hkeys hoperand hgood) trivial
    | int n =>
      have hoperand : (gKeys data).operand = some n := by rw [gKeys_eq hmember (by simp)]; rfl
      have hgood := not_badKeys hmember (Or.inr (Or.inr ⟨n, rfl⟩))
      exact iff_of_true (toRobot_good py me hkeys hoperand hgood) trivial
    | bool b =>
      have hoperand : (gKeys data).operand = some (ofBool b) := by
        rw [gKeys_eq hmember (by simp)]
        rfl
      have hbad : BadKeys (some (.object data)) :=
        ⟨data, .bool b, rfl, hkeys, hmember, by simp, by simp⟩
      rw [toRobot_keys py me hkeys hoperand]
      show _ ↔ s.lastKeys = some (ofBool b)
      constructor
      · rintro ⟨-, hnothing⟩
        exact (hnothing hbad).2.symm
      · intro hlast
        refine ⟨rfl, fun _ => ⟨?_, hlast.symm⟩⟩
        dsimp only
        rw [hlast, keyCommands_same, List.map_nil]
    | float | string | array | object =>
      have hoperand : (gKeys data).operand = none := by rw [gKeys_eq hmember (by simp)]; rfl
      refine iff_of_false ?_ id
      rintro ⟨hraised, -⟩
      rw [toRobot_raises py me hkeys hoperand] at hraised
      exact absurd hraised (Option.some_ne_none _)

/-- With a robot, everything else depends on `gKeys`. -/
theorem toRobot_ignores_iff (py : Python) (me : Client) (s : Server Client)
    (robot : List UInt8 × Minotaur Client) (data : List (Text × Json)) :
    ((s.toRobot py me robot data).raised = none ∧
        (BadKeys (some (.object data)) → (s.toRobot py me robot data).sent = [] ∧
          (s.toRobot py me robot data).server.lastKeys = s.lastKeys)) ↔
      isMetricsRequest data = true ∨ keysAccepted s.lastKeys (member data "gKeys") := by
  cases hmetrics : isMetricsRequest data with
  | true =>
    refine iff_of_true ⟨?_, fun hbad => absurd hbad (not_badKeys_of_metrics hmetrics)⟩ (Or.inl rfl)
    rw [Server.toRobot, if_pos hmetrics]
  | false =>
    rw [or_iff_right Bool.false_ne_true]
    exact toRobot_ignores_iff_keys py me s robot hmetrics

/-- A message is handled as it should be exactly if it is no `JSON` at all, or
an object of one of three kinds: it names no robot, and none is logged in or
the terminal can print the name; it asks a robot for its metrics; its `gKeys` is
missing, null, an integer, or the truth value for the keys already held. -/
theorem ignoresMalformed_iff (py : Python) (me : Client) (s : Server Client)
    (jdata : List UInt8) :
    IgnoresMalformed py me s jdata ↔ Accepts py s (py.loads jdata) := by
  unfold IgnoresMalformed Server.dataReceived
  cases hloads : py.loads jdata with
  | none => simp [Accepts]
  | some message =>
    cases message with
    | object data =>
      show _ ↔ match s.robot data with
        | some _ => isMetricsRequest data = true ∨ keysAccepted s.lastKeys (member data "gKeys")
        | none => s.instances = [] ∨ ∃ robotid, member data "robotid" = some robotid ∧
            py.print robotid = none
      cases hrobot : s.robot data with
      | some robot =>
        have hnames : s.Names (some (.object data)) := ⟨data, rfl, by rw [hrobot]; rfl⟩
        rw [or_iff_right (not_not_intro hnames)]
        have hconnected : { s with connected := true }.robot data = some robot := hrobot
        dsimp only
        rw [hconnected]
        exact toRobot_ignores_iff py me { s with connected := true } robot data
      | none =>
        have hconnected : { s with connected := true }.robot data = none := hrobot
        dsimp only
        rw [hconnected]
        by_cases hempty : s.instances = []
        · simp [hempty]
        · have hlength : s.instances.length ≠ 0 := by simpa using hempty
          simp only [if_pos hlength, or_iff_right hempty]
          cases hmember : member data "robotid" with
          | none => simp
          | some robotid => simp
    | null | bool | int | float | string | array => simp [Accepts]

/-- `json.loads` on `[]`, with a terminal for `ASCII`. -/
def emptyArray : Python where
  loads jdata := if jdata = [0x5B, 0x5D] then some (.array []) else none
  intOfText _ := none
  encodes text := text.all (· < 128)

/-- `[]` has no `keys()`, even if no robot is logged in. -/
theorem emptyArray_raises :
    ¬ ∀ (py : Python) (me : Nat) (s : Server Nat) (jdata : List UInt8),
      IgnoresMalformed py me s jdata := by
  intro h
  have hraised := (h emptyArray 0 ⟨[], false, none⟩ [0x5B, 0x5D]).1
  exact absurd hraised (by decide)

end MinotaurRobot.Cnc
