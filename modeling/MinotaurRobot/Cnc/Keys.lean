import MinotaurRobot.Cnc.MainCncWait
import MinotaurRobot.Mcu.MainLoop

/-!
# The keys that are held

A web client sends the keys that are held as bits of one word, and the server
turns them into commands for the robot.  A drive command is sent when the drive
bits (W, A, S, D and space) change, but its motion is looked up by the whole
word, with the camera keys in it.

`follows_iff` gives the sequences of messages behind which the last drive
command is always the one that the drive bits select.
-/

namespace MinotaurRobot.Cnc

open Mcu (Direction)

/-! ## `cnc.py` -/

/-- A key message to a robot that is logged in, with `gKeys` and `int(speed)`. -/
structure KeyMessage where
  gKeys : Int
  speed : Int
  deriving DecidableEq, Repr

/-- `gKeys & 31`, in two's complement. -/
def driveBits (gKeys : Int) : Int := gKeys % 32

/-- `gKeys & 16` is not zero. -/
def spaceBit (gKeys : Int) : Bool := gKeys / 16 % 2 = 1

def diagScale : Int := 0

/-- The two motors, as the sign of their motion. -/
def motors (gKeys : Int) : Int × Int :=
  let motors :=
    if gKeys = 1 then (1, 1)
    else if gKeys = 2 then (-1, 1)
    else if gKeys = 4 then (-1, -1)
    else if gKeys = 8 then (1, -1)
    else if gKeys = 3 then (diagScale, 1)
    else if gKeys = 9 then (1, diagScale)
    else if gKeys = 6 then (-diagScale, -1)
    else if gKeys = 12 then (-1, -diagScale)
    else (0, 0)
  if spaceBit gKeys then (0, 0) else motors

/-- `data['speed']` behind its check. -/
def checkedSpeed (speed : Int) : Int := if speed > 100 ∨ speed < 0 then 0 else speed

/-- `int(m * max(min(speed * 127.0/100,127),0))`, in hundredths until the end.
The float quotient is an integer only where it is exact. -/
def scaled (m speed : Int) : Int := (m * max (min (speed * 127) 12700) 0).tdiv 100

/-- One data byte of a drive command: the speed, and bit 7 for backward. -/
def motorByte (m : Int) : Int := (m.natAbs ||| if m < 0 then 128 else 0 : ℕ)

/-- The camera command of a key that is pressed alone. -/
def cameraCommand (gKeys : Int) : List SendCmd :=
  if gKeys = 32 then [⟨0x10, 0x00, 0x00⟩]
  else if gKeys = 64 then [⟨0x20, 0x01, 0x00⟩]
  else if gKeys = 128 then [⟨0x20, 0x02, 0x00⟩]
  else if gKeys = 256 then [⟨0x20, 0x04, 0x00⟩]
  else if gKeys = 512 then [⟨0x20, 0x07, 0x00⟩]
  else if gKeys = 1024 then [⟨0x21, 0x00, 0x00⟩]
  else if gKeys = 2048 then [⟨0x22, 0x00, 0x00⟩]
  else if gKeys = 4096 then [⟨0x23, 0x00, 0x00⟩]
  else []

/-- The drive command for a message. -/
def driveCommand (message : KeyMessage) : SendCmd :=
  let speed := checkedSpeed message.speed
  let (left, right) := motors message.gKeys
  ⟨0x01, motorByte (scaled left speed), motorByte (scaled right speed)⟩

/-- The commands that `dataReceived` sends for a key message. -/
def keyCommands (lastKeys : Option Int) (message : KeyMessage) : List SendCmd :=
  (match lastKeys with
    | none => []
    | some last =>
      if driveBits message.gKeys ≠ driveBits last then [driveCommand message] else []) ++
    (if lastKeys = some 0 then cameraCommand message.gKeys else [])

/-- One web client: `last_keys`, and the commands that it has sent to the
robot. -/
structure Session where
  lastKeys : Option Int
  sent : List SendCmd

def Session.start : Session := ⟨none, []⟩

/-- `dataReceived` on a key message. -/
def Session.dataReceived (s : Session) (message : KeyMessage) : Session where
  lastKeys := some message.gKeys
  sent := s.sent ++ keyCommands s.lastKeys message

def Session.run (messages : List KeyMessage) : Session :=
  messages.foldl Session.dataReceived Session.start

/-! ## Motion -/

/-- The directions in which the robot turns its wheels for a drive command. -/
def SendCmd.directions (c : SendCmd) : Direction × Direction :=
  ((Mcu.userWheel (UInt8.ofInt c.data1)).direction,
    (Mcu.userWheel (UInt8.ofInt c.data2)).direction)

/-- The directions of the drive command that was sent last. -/
def commanded (sent : List SendCmd) : Direction × Direction :=
  match (sent.filter fun c => c.command = 0x01).getLast? with
  | none => (.stop, .stop)
  | some c => c.directions

/-- The directions that the drive bits select. -/
def select (bits : Int) : Direction × Direction :=
  if bits = 1 then (.forward, .forward)
  else if bits = 2 then (.backward, .forward)
  else if bits = 4 then (.backward, .backward)
  else if bits = 8 then (.forward, .backward)
  else if bits = 3 then (.stop, .forward)
  else if bits = 9 then (.forward, .stop)
  else if bits = 6 then (.stop, .backward)
  else if bits = 12 then (.backward, .stop)
  else (.stop, .stop)

/-- Behind every message the last drive command is the one that its drive bits
select. -/
def Follows (messages : List KeyMessage) : Prop :=
  ∀ pre message, pre ++ [message] <+: messages →
    commanded (Session.run (pre ++ [message])).sent = select (driveBits message.gKeys)

/-- A message that changes the drive bits has no other bits, or selects a
stop. -/
def Plain (messages : List KeyMessage) : Prop :=
  ∀ pre last message, pre ++ [last, message] <+: messages →
    driveBits message.gKeys ≠ driveBits last.gKeys →
      driveBits message.gKeys = message.gKeys ∨
        select (driveBits message.gKeys) = (.stop, .stop)

/-- A message that changes the drive bits, and so sends a drive command, has a
speed. -/
def Moving (messages : List KeyMessage) : Prop :=
  ∀ pre last message, pre ++ [last, message] <+: messages →
    driveBits message.gKeys ≠ driveBits last.gKeys → checkedSpeed message.speed ≠ 0

/-! ## One message -/

/-- Speed and direction come out of a data byte as they went in. -/
theorem direction_motorByte {m : Int} (h : m.natAbs < 128) :
    (Mcu.userWheel (UInt8.ofInt (motorByte m))).direction =
      if m < 0 then .backward else if m = 0 then .stop else .forward := by
  have hback : ∀ n < 128,
      (Mcu.userWheel (UInt8.ofInt ((n ||| 128 : ℕ) : Int))).direction = .backward := by decide
  have hfront : ∀ n < 128, (Mcu.userWheel (UInt8.ofInt ((n ||| 0 : ℕ) : Int))).direction =
      if n = 0 then .stop else .forward := by decide
  unfold motorByte
  by_cases hneg : m < 0
  · rw [if_pos hneg, if_pos hneg]
    exact hback m.natAbs h
  · rw [if_neg hneg, if_neg hneg, hfront m.natAbs h]
    simp only [Int.natAbs_eq_zero]

/-- Full speed is 127, and every other speed turns the wheel too. -/
theorem scaled_bounds {speed : Int} (h : checkedSpeed speed ≠ 0) :
    scaled 0 (checkedSpeed speed) = 0 ∧
      (0 < scaled 1 (checkedSpeed speed) ∧ scaled 1 (checkedSpeed speed) < 128) ∧
      scaled (-1) (checkedSpeed speed) = -scaled 1 (checkedSpeed speed) := by
  have hrange : 0 < speed ∧ speed ≤ 100 := by
    unfold checkedSpeed at h
    split at h <;> omega
  have hchecked : checkedSpeed speed = speed := by
    unfold checkedSpeed
    rw [if_neg (by omega)]
  have hclamp : max (min (speed * 127) 12700) 0 = speed * 127 := by omega
  unfold scaled
  rw [hchecked, hclamp]
  refine ⟨?_, ?_, ?_⟩
  · rw [Int.zero_mul, Int.zero_tdiv]
  · rw [Int.one_mul, Int.tdiv_eq_ediv_of_nonneg (by omega)]
    omega
  · rw [Int.neg_mul, Int.neg_tdiv]

/-- The wheel turns in the direction of the sign of its motor. -/
theorem direction_scaled {speed : Int} (h : checkedSpeed speed ≠ 0) :
    (Mcu.userWheel (UInt8.ofInt (motorByte (scaled 0 (checkedSpeed speed))))).direction = .stop ∧
      (Mcu.userWheel (UInt8.ofInt (motorByte (scaled 1 (checkedSpeed speed))))).direction =
        .forward ∧
      (Mcu.userWheel (UInt8.ofInt (motorByte (scaled (-1) (checkedSpeed speed))))).direction =
        .backward := by
  obtain ⟨hzero, ⟨hlow, hhigh⟩, hneg⟩ := scaled_bounds h
  rw [hneg, hzero]
  refine ⟨?_, ?_, ?_⟩
  · exact direction_motorByte (by decide)
  · rw [direction_motorByte (by omega), if_neg (by omega), if_neg (by omega)]
  · rw [direction_motorByte (by omega), if_pos (by omega)]

/-- The drive command has the motion of the drive bits, if there are no other
bits.  Any other bit stops the robot. -/
theorem directions_driveCommand {message : KeyMessage} (h : checkedSpeed message.speed ≠ 0) :
    (driveCommand message).directions =
      if driveBits message.gKeys = message.gKeys then select (driveBits message.gKeys)
      else (.stop, .stop) := by
  obtain ⟨hstop, hforward, hbackward⟩ := direction_scaled h
  unfold driveCommand SendCmd.directions
  by_cases htable : message.gKeys ∈ ([1, 2, 4, 8, 3, 9, 6, 12] : List Int)
  · simp only [List.mem_cons, List.not_mem_nil, or_false] at htable
    rcases htable with h | h | h | h | h | h | h | h <;>
      simp [h, motors, spaceBit, diagScale, driveBits, select, hstop, hforward, hbackward]
  · simp only [List.mem_cons, List.not_mem_nil, or_false, not_or] at htable
    obtain ⟨h₁, h₂, h₄, h₈, h₃, h₉, h₆, h₁₂⟩ := htable
    have hmotors : motors message.gKeys = (0, 0) := by
      simp [motors, h₁, h₂, h₄, h₈, h₃, h₉, h₆, h₁₂]
    have hselect : select message.gKeys = (.stop, .stop) := by
      simp [select, h₁, h₂, h₄, h₈, h₃, h₉, h₆, h₁₂]
    rw [hmotors]
    dsimp only
    rw [hstop]
    split
    · rename_i hbits
      rw [hbits, hselect]
    · rfl

/-- Camera commands do not drive the robot. -/
theorem filter_cameraCommand (gKeys : Int) :
    (cameraCommand gKeys).filter (fun c => c.command = 0x01) = [] := by
  unfold cameraCommand
  repeat' split
  all_goals rfl

/-- A message changes the motion only if it changes the drive bits. -/
theorem commanded_dataReceived {s : Session} {last : Int} (h : s.lastKeys = some last)
    (message : KeyMessage) :
    commanded (s.dataReceived message).sent =
      if driveBits message.gKeys ≠ driveBits last then (driveCommand message).directions
      else commanded s.sent := by
  have hcamera : ((if s.lastKeys = some 0 then cameraCommand message.gKeys else []).filter
      fun c => c.command = 0x01) = [] := by
    split
    · exact filter_cameraCommand message.gKeys
    · rfl
  unfold commanded Session.dataReceived keyCommands
  dsimp only
  rw [List.filter_append, List.filter_append, hcamera, List.append_nil, h]
  by_cases hbits : driveBits message.gKeys ≠ driveBits last
  · dsimp only
    rw [if_pos hbits, if_pos hbits, List.filter_cons_of_pos rfl, List.filter_nil,
      List.getLast?_concat]
  · dsimp only
    rw [if_neg hbits, if_neg hbits, List.filter_nil, List.append_nil]

theorem run_concat (pre : List KeyMessage) (message : KeyMessage) :
    Session.run (pre ++ [message]) = (Session.run pre).dataReceived message := by
  unfold Session.run
  rw [List.foldl_append]
  rfl

/-- Behind two messages the motion is the one of the first, unless the second
changes the drive bits. -/
theorem commanded_pair (pre : List KeyMessage) {last message : KeyMessage}
    (h : driveBits message.gKeys ≠ driveBits last.gKeys → checkedSpeed message.speed ≠ 0) :
    commanded (Session.run (pre ++ [last, message])).sent =
      if driveBits message.gKeys ≠ driveBits last.gKeys then
        if driveBits message.gKeys = message.gKeys then select (driveBits message.gKeys)
        else (.stop, .stop)
      else commanded (Session.run (pre ++ [last])).sent := by
  have hlast : (Session.run (pre ++ [last])).lastKeys = some last.gKeys := by
    rw [run_concat]
    rfl
  have hpair : pre ++ [last, message] = pre ++ [last] ++ [message] := by simp
  rw [hpair, run_concat, commanded_dataReceived hlast]
  by_cases hbits : driveBits message.gKeys ≠ driveBits last.gKeys
  · rw [if_pos hbits, if_pos hbits, directions_driveCommand (h hbits)]
  · rw [if_neg hbits, if_neg hbits]

/-! ## Sequences of messages -/

/-- The robot follows the keys that are held, from a first message without
keys, exactly if every message that changes the drive bits has no camera keys
in it or selects a stop. -/
theorem follows_iff {messages : List KeyMessage}
    (h : ∀ message ∈ messages.head?, message.gKeys = 0) (hmoving : Moving messages) :
    Follows messages ↔ Plain messages := by
  constructor
  · intro hfollows pre last message hpre hbits
    have hpair := commanded_pair pre (hmoving pre last message hpre)
    have hsplit : pre ++ [last, message] = pre ++ [last] ++ [message] := by simp
    rw [if_pos hbits, hsplit, hfollows (pre ++ [last]) message (hsplit ▸ hpre)] at hpair
    by_cases hword : driveBits message.gKeys = message.gKeys
    · exact Or.inl hword
    · rw [if_neg hword] at hpair
      exact Or.inr hpair
  · intro hplain pre
    induction pre using List.reverseRecOn with
    | nil =>
      intro message hpre
      obtain ⟨suf, rfl⟩ := hpre
      have hzero : message.gKeys = 0 := h message rfl
      rw [hzero]
      show commanded (keyCommands none message) = _
      rfl
    | append_singleton pre last ih =>
      intro message hpre
      have hsplit : pre ++ [last] ++ [message] = pre ++ [last, message] := by simp
      have hlast := ih last ((List.prefix_append _ [message]).trans hpre)
      rw [hsplit] at hpre ⊢
      rw [commanded_pair pre (hmoving pre last message hpre)]
      by_cases hbits : driveBits message.gKeys ≠ driveBits last.gKeys
      · rw [if_pos hbits]
        by_cases hword : driveBits message.gKeys = message.gKeys
        · rw [if_pos hword]
        · rw [if_neg hword]
          exact ((hplain pre last message hpre hbits).resolve_left hword).symm
      · rw [if_neg hbits, hlast, not_not.1 hbits]

/-- A message at half speed. -/
def KeyMessage.half (gKeys : Int) : KeyMessage := ⟨gKeys, 50⟩

/-- W is pressed and released. -/
theorem follows_forward : Follows [.half 0, .half 1, .half 0] := by
  have hmem : ∀ pre last message, pre ++ [last, message] <+:
      [KeyMessage.half 0, .half 1, .half 0] → message = .half 0 ∨ message = .half 1 := by
    intro pre last message hpre
    have hin := hpre.subset (List.mem_append_right pre (List.mem_cons_of_mem last
      (List.mem_singleton_self message)))
    simp only [List.mem_cons, List.not_mem_nil, or_false] at hin
    rcases hin with rfl | rfl | rfl
    · exact Or.inl rfl
    · exact Or.inr rfl
    · exact Or.inl rfl
  apply (follows_iff (by simp [KeyMessage.half]) ?_).2
  · intro pre last message hpre _
    rcases hmem pre last message hpre with rfl | rfl
    · exact Or.inl rfl
    · exact Or.inl rfl
  · intro pre last message hpre _
    rcases hmem pre last message hpre with rfl | rfl
    · decide
    · decide

/-- W is pressed while F12 is held: the server commands a stop. -/
theorem camera_key_stops :
    commanded (Session.run [.half 0, .half 32, .half 33]).sent = (.stop, .stop) ∧
      select (driveBits 33) = (.forward, .forward) ∧ ¬Follows [.half 0, .half 32, .half 33] := by
  refine ⟨by decide, by decide, ?_⟩
  intro h
  have := h [.half 0, .half 32] (.half 33) List.prefix_rfl
  exact absurd this (by decide)

end MinotaurRobot.Cnc
