import Mathlib.Data.Finset.Card
import MinotaurRobot.Cnc.MainCncWait
import MinotaurRobot.Cnc.Metrics
import MinotaurRobot.Lib.Marked

/-!
# The server's side of the robot

`Minotaur` and `MinotaurProtocol` of `cnc.py`, for one robot.  The web clients
that wait for metrics are a set, and a chunk that is recognised as a metrics
packet goes to all of them.  `buffer` of the protocol is never used: each chunk
is taken for a whole message.

The messages of the robot are at the end.
-/

namespace MinotaurRobot.Cnc

open Lib.StructFormat

variable {Client : Type} [DecidableEq Client]

/-! ## `cnc.py` -/

/-- `Minotaur`, with `0x30` as the only key of `requests`. -/
structure Minotaur (Client : Type) where
  name : Option (List UInt8)
  loggedin : Bool
  /-- `requests[0x30]`, if the key is there. -/
  requests : Option (Finset Client)

def Minotaur.init : Minotaur Client where
  name := none
  loggedin := false
  requests := none

def Minotaur.login (m : Minotaur Client) (name : List UInt8) : Minotaur Client :=
  { m with name := some name, loggedin := true }

/-- `requestMetrics`.  Returns the commands that are sent. -/
def Minotaur.requestMetrics (m : Minotaur Client) (client : Client) :
    Minotaur Client × List SendCmd :=
  let clients := insert client (m.requests.getD ∅)
  ({ m with requests := some clients },
    if clients.card = 1 then [⟨0x30, 0x00, 0x00⟩] else [])

/-- What is written to the web clients for a metrics packet. -/
structure Answer (Client : Type) where
  clients : Finset Client
  metrics : List (String × Value)

/-- `MinotaurProtocol.dataReceived`. -/
def Minotaur.dataReceived (m : Minotaur Client) (data : List UInt8) :
    Minotaur Client × Option (Answer Client) :=
  if !m.loggedin then (m.login data, none)
  -- `data[0]`: the transport delivers no empty chunk
  else if data.head? = some 0x30 then
    match m.requests with
    | none => (m, none)
    | some clients =>
      match unpack metricsFormat data with
      -- `struct.error`: the early return leaves the clients waiting
      | none => (m, none)
      | some values => ({ m with requests := some ∅ }, some ⟨clients, metricsDict values⟩)
  else (m, none)

/-- The clients that wait for metrics. -/
def Minotaur.waiting (m : Minotaur Client) : Finset Client := m.requests.getD ∅

/-! ## The robot -/

/-- What the robot sends behind its login. -/
inductive Message where
  | keepalive
  | metrics (state : Host.MinotaurState UInt32)

/-- `"Bull:1"`, without the `NUL`. -/
def loginBytes : List UInt8 := [66, 117, 108, 108, 58, 49]

/-- `"Hello World!\n"`, with the `NUL`. -/
def keepaliveBytes : List UInt8 := [72, 101, 108, 108, 111, 32, 87, 111, 114, 108, 100, 33, 10, 0]

def Message.bytes : Message → List UInt8
  | .keepalive => keepaliveBytes
  | .metrics state => (MinotaurStatePacked.ofState state).bytes

def stream (messages : List Message) : List UInt8 := messages.flatMap Message.bytes

/-- A robot that has not moved. -/
def parked : Host.MinotaurState UInt32 :=
  ⟨0, 0, 0, 0, 0, 0, 0, 0, true, true, true, true, true, true⟩

/-! ## Recognised chunks -/

/-- The first byte of a metrics packet. -/
def metricsMark (b : UInt8) : Bool := b == 0x30

/-- A chunk of the shape of a metrics packet. -/
def isPacket (data : List UInt8) : Bool :=
  Lib.Marked.headed metricsMark data && data.length == 23

theorem headed_iff (data : List UInt8) :
    Lib.Marked.headed metricsMark data = true ↔ data.head? = some 0x30 := by
  cases data with
  | nil => simp [Lib.Marked.headed]
  | cons b data => simp [Lib.Marked.headed, metricsMark]

omit [DecidableEq Client] in
/-- What one chunk does once the robot is logged in. -/
theorem dataReceived_eq {m : Minotaur Client} (h : m.loggedin = true) (data : List UInt8) :
    m.dataReceived data =
      if m.requests.isSome && isPacket data then
        ({ m with requests := some ∅ },
          some ⟨m.waiting, metricsDict (unpackFields metricsFormat data)⟩)
      else (m, none) := by
  unfold Minotaur.dataReceived isPacket
  rw [h, Bool.not_true, if_neg Bool.false_ne_true]
  by_cases hhead : data.head? = some 0x30
  · rw [if_pos hhead, (headed_iff data).2 hhead, Bool.true_and]
    cases hrequests : m.requests with
    | none => rfl
    | some clients =>
      have hwaiting : m.waiting = clients := by
        unfold Minotaur.waiting
        rw [hrequests, Option.getD_some]
      rw [hwaiting, Option.isSome_some, Bool.true_and]
      have hsize : calcsize metricsFormat = 23 := rfl
      unfold unpack
      by_cases hlen : data.length = 23
      · rw [if_pos (hlen.trans hsize.symm), if_pos (beq_iff_eq.2 hlen)]
      · rw [if_neg (hsize ▸ hlen), if_neg (mt beq_iff_eq.1 hlen)]
  · rw [if_neg hhead, Bool.eq_false_iff.2 (mt (headed_iff data).1 hhead), Bool.false_and,
      Bool.and_false, if_neg Bool.false_ne_true]

/-! ## The messages as a stream -/

/-- Every message is a packet or has no mark. -/
theorem valid_messages (messages : List Message) :
    Lib.Marked.Valid metricsMark 23 (messages.map Message.bytes) := by
  intro bytes hbytes
  obtain ⟨message, -, rfl⟩ := List.mem_map.1 hbytes
  cases message with
  | keepalive =>
    have hall : keepaliveBytes.all (fun b => !metricsMark b) = true := by decide
    refine Or.inl fun b hb => ?_
    have hb := List.all_eq_true.1 hall b hb
    rwa [Bool.not_eq_true'] at hb
  | metrics state => exact Or.inr ⟨rfl, length_bytes _⟩

theorem unpack_ofState (state : Host.MinotaurState UInt32) :
    unpackFields metricsFormat (Message.metrics state).bytes =
      (MinotaurStatePacked.ofState state).read := by
  have h := unpack_bytes (MinotaurStatePacked.ofState state)
  have hlen : (MinotaurStatePacked.ofState state).bytes.length = calcsize metricsFormat :=
    length_bytes _
  unfold unpack at h
  rw [if_pos hlen, Option.some.injEq] at h
  exact h

/-- Chunks that are read alike have their marks at the same places. -/
theorem marks_of_unpackFields {data data' : List UInt8} (h : data.length = 23)
    (h' : data'.length = 23)
    (hread : unpackFields metricsFormat data = unpackFields metricsFormat data') :
    data.map metricsMark = data'.map metricsMark := by
  have halike : ∀ b b' : UInt8, Alike b b' → metricsMark b = metricsMark b' := by
    rintro b b' (rfl | ⟨hb, hb'⟩)
    · rfl
    · have hfalse : ∀ c : UInt8, 128 ≤ c.toNat → metricsMark c = false := by
        intro c hc
        rw [metricsMark, beq_eq_false_iff_ne]
        rintro rfl
        exact absurd hc (by decide)
      rw [hfalse b hb, hfalse b' hb']
  have hall := @alike_of_unpackFields metricsFormat data data' h h' hread
  clear h h' hread
  induction hall with
  | nil => rfl
  | cons hb _ ih => rw [List.map_cons, List.map_cons, halike _ _ hb, ih]

end MinotaurRobot.Cnc
