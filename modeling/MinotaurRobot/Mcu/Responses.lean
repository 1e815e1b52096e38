import MinotaurRobot.Lib.Framing
import MinotaurRobot.Mcu.MainLoop

/-!
# The responses of the main loop

`responses` lists the five-byte packets that the main loop decides to send
for a complete control packet.  `handlePacket_tx` is the specification of the
whole second half of an iteration: it pushes these packets one after the
other and does nothing else to the transmit buffer.  The tests for a full
buffer in front of some of them make no difference, because a full buffer
drops the pushes anyway (`respondIfRoom_eq`).

A buffer with room for a part of a packet takes that part.
`handlePacket_atomic_iff` gives the fill levels at which no packet is cut.
-/

namespace MinotaurRobot.Mcu

/-! ## What is sent for a packet -/

/-- The packets that the main loop sends for the control packet. -/
def responses (s : State) : List (List UInt8) :=
  let left := (ticksHigh s.encoders.left.ticks, ticksLow s.encoders.left.ticks)
  let right := (ticksHigh s.encoders.right.ticks, ticksLow s.encoders.right.ticks)
  if s.controlpacket.bytesRecieved = 5 then
    if s.controlpacket.command = cmdGetSensorData then
      [response s cmdSensor (irBits s.sensors) 0x00,
        response s cmdLeftEncoder left.1 left.2,
        response s cmdRightEncoder right.1 right.2]
    else if s.controlpacket.command = cmdRightEncoder then
      [response s cmdRightEncoder right.1 right.2]
    else if s.controlpacket.command = cmdLeftEncoder then
      [response s cmdLeftEncoder left.1 left.2]
    else if s.controlpacket.command = cmdBattery then
      [response s cmdBattery s.batteryPercentage 0x00]
    else if s.controlpacket.command = cmdSensor then
      [response s cmdSensor (irBits s.sensors) 0x00]
    else if s.controlpacket.command = cmdMotors then
      [response s cmdMotors 0 0]
    else []
  else []

/-- Every response has five bytes, and the first is the sync byte. -/
theorem mem_responses {s : State} {r : List UInt8} (h : r ∈ responses s) :
    ∃ command d1 d2, r = response s command d1 d2 := by
  rw [responses] at h
  split_ifs at h <;>
    simp only [List.mem_cons, List.not_mem_nil, or_false] at h <;>
    first
      | exact ⟨_, _, _, h⟩
      | (rcases h with h | h | h <;> exact ⟨_, _, _, h⟩)

theorem responses_length {s : State} {r : List UInt8} (h : r ∈ responses s) :
    r.length = 5 := by
  obtain ⟨_, _, _, rfl⟩ := mem_responses h
  rfl

/-! ## The handlers -/

/-- Pushes into a full buffer change nothing. -/
theorem pushAll_of_full {buff : Buffer} (h : buff.free = 0) (bytes : List UInt8) :
    pushAll buff bytes = buff := by
  induction bytes with
  | nil => rfl
  | cons c bytes ih =>
    have hpush : (buffPush buff c).1 = buff := by
      rw [buffPush, if_pos ((next_tail_eq_head_iff buff).2 h)]
    rw [pushAll, List.foldl_cons, hpush]
    exact ih

/-- The test for a full buffer in front of a response changes nothing. -/
theorem respondIfRoom_eq (s : State) (command d1 d2 : UInt8) :
    respondIfRoom s command d1 d2 = respond s command d1 d2 := by
  unfold respondIfRoom
  by_cases hfull : buffStatus s.txDataBuffer = .full
  · rw [hfull, respond, pushAll_of_full ((buffStatus_eq_full_iff _).1 hfull)]
    rfl
  · rw [if_pos (by simpa using hfull)]

-- the handlers are compared without running the pushes
attribute [local irreducible] pushAll

/-- The parts of the state that carry bytes, and the flag that asks for the
debug text. -/
structure Ports where
  tx : Buffer
  rx : Buffer
  packet : ControlData
  print : Bool

def State.ports (s : State) : Ports :=
  ⟨s.txDataBuffer, s.rxDataBuffer, s.controlpacket, s.print⟩

theorem ports_tx (s : State) : s.ports.tx = s.txDataBuffer := rfl

theorem ports_rx (s : State) : s.ports.rx = s.rxDataBuffer := rfl

theorem ports_packet (s : State) : s.ports.packet = s.controlpacket := rfl

theorem ports_print (s : State) : s.ports.print = s.print := rfl

/-- The control packet is complete. -/
abbrev Ports.Complete (p : Ports) : Prop := p.packet.bytesRecieved = 5

/-- `consume` on the ports. -/
def Ports.consume (p : Ports) : Ports :=
  { p with packet := { p.packet with bytesRecieved := 0 } }

/-- Pushes on the ports. -/
def Ports.push (p : Ports) (bytes : List UInt8) : Ports :=
  { p with tx := pushAll p.tx bytes }

@[simp] theorem Ports.push_nil (p : Ports) : p.push [] = p := by
  rw [Ports.push, pushAll_nil]

@[simp] theorem Ports.push_push (p : Ports) (xs ys : List UInt8) :
    (p.push xs).push ys = p.push (xs ++ ys) := by
  simp only [Ports.push, pushAll_append]

@[simp] theorem ports_consume (s : State) : (consume s).ports = s.ports.consume := rfl

@[simp] theorem ports_respond (s : State) (command d1 d2 : UInt8) :
    (respond s command d1 d2).ports = s.ports.push (response s command d1 d2) := by
  rw [respond, State.ports, State.ports, Ports.push]

@[simp] theorem ports_evadeIf (tripped : Bool) (left right : Wheel) (s : State) :
    (evadeIf tripped left right s).ports = s.ports := by
  unfold evadeIf
  split <;> rfl

@[simp] theorem ports_evadeSides (on : Bool) (v : Sensors) (s : State) :
    (evadeSides on v s).ports = s.ports := by
  unfold evadeSides
  split_ifs <;> exact ports_evadeIf ..

@[simp] theorem ports_followUser (s : State) : (followUser s).ports = s.ports := by
  unfold followUser
  split <;> rfl

@[simp] theorem ports_avoidObstacles (s : State) : (avoidObstacles s).ports = s.ports := by
  simp only [avoidObstacles, ports_followUser, ports_evadeSides, ports_evadeIf]
  rfl

@[simp] theorem ports_driveMotors (s : State) : (driveMotors s).ports = s.ports := rfl

@[simp] theorem ports_enableSensors (s : State) : (enableSensors s).ports = s.ports := by
  unfold enableSensors
  split <;> rfl

theorem ports_autonomousMode (s : State) :
    (autonomousMode s).ports =
      if s.ports.Complete ∧ s.ports.packet.command = cmdAutonomousMode then s.ports.consume
      else s.ports := by
  by_cases h : s.controlpacket.bytesRecieved = 5 ∧
      s.controlpacket.command = cmdAutonomousMode
  · refine Eq.trans ?_ (if_pos h).symm
    rw [autonomousMode, if_pos h]
    dsimp only
    split <;> rfl
  · refine Eq.trans ?_ (if_neg h).symm
    rw [autonomousMode, if_neg h]

theorem ports_motorCmd (s : State) :
    (motorCmd s).ports =
      if s.ports.Complete ∧ s.ports.packet.command = cmdMotors then
        (s.ports.push (response s cmdMotors 0 0)).consume
      else s.ports := by
  by_cases h : s.controlpacket.bytesRecieved = 5 ∧ s.controlpacket.command = cmdMotors
  · refine Eq.trans ?_ (if_pos h).symm
    rw [motorCmd, if_pos h]
    dsimp only
    rw [respondIfRoom_eq, ports_respond]
    rfl
  · refine Eq.trans ?_ (if_neg h).symm
    rw [motorCmd, if_neg h]

theorem ports_endReset (s : State) :
    (endReset s).ports = if s.ports.Complete then s.ports.consume else s.ports := by
  by_cases h : s.controlpacket.bytesRecieved = 5
  · refine Eq.trans ?_ (if_pos h).symm
    rw [endReset, if_pos h, ports_consume]
  · refine Eq.trans ?_ (if_neg h).symm
    rw [endReset, if_neg h]

/-- The sections behind the responses answer a motor command, and whatever
the command is, they leave no complete packet behind. -/
theorem ports_afterProcess (s : State) :
    (afterProcess s).ports =
      if s.controlpacket.bytesRecieved = 5 then
        if s.controlpacket.command = cmdMotors then
          (s.ports.push (response s cmdMotors 0 0)).consume
        else s.ports.consume
      else s.ports := by
  show _ = if s.ports.Complete then if s.ports.packet.command = cmdMotors then _ else _ else _
  rw [afterProcess, ports_endReset, ports_driveMotors, ports_avoidObstacles,
    ports_autonomousMode, ports_enableSensors, ports_motorCmd]
  have hdone : ∀ p : Ports, ¬p.consume.Complete := fun p => by
    show ¬((0 : UInt8) = 5)
    decide
  split_ifs <;> first | rfl | simp_all

theorem ports_afterProcess_consume (s : State) :
    (afterProcess (consume s)).ports = s.ports.consume := by
  rw [ports_afterProcess]
  exact if_neg (by decide : ¬((0 : UInt8) = 5))

@[simp] theorem command_consume (s : State) :
    (consume s).controlpacket.command = s.controlpacket.command := rfl

@[simp] theorem command_respond (s : State) (command d1 d2 : UInt8) :
    (respond s command d1 d2).controlpacket.command = s.controlpacket.command := rfl

@[simp] theorem bytesRecieved_respond (s : State) (command d1 d2 : UInt8) :
    (respond s command d1 d2).controlpacket.bytesRecieved =
      s.controlpacket.bytesRecieved := rfl

theorem getSensorData_eq (s : State) :
    getSensorData s = consume (respond (respond (respond s cmdSensor (irBits s.sensors) 0x00)
      cmdLeftEncoder (ticksHigh s.encoders.left.ticks) (ticksLow s.encoders.left.ticks))
      cmdRightEncoder (ticksHigh s.encoders.right.ticks) (ticksLow s.encoders.right.ticks)) := by
  simp only [getSensorData, respondIfRoom_eq]
  rfl

/-- The commands are tested one after the other, and at most one test
succeeds. -/
theorem processCmd_eq {s : State} (h : s.controlpacket.bytesRecieved = 5) :
    processCmd s =
      if s.controlpacket.command = cmdGetSensorData then getSensorData s
      else if s.controlpacket.command = cmdRightEncoder then
        consume (respond s cmdRightEncoder
          (ticksHigh s.encoders.right.ticks) (ticksLow s.encoders.right.ticks))
      else if s.controlpacket.command = cmdLeftEncoder then
        consume (respond s cmdLeftEncoder
          (ticksHigh s.encoders.left.ticks) (ticksLow s.encoders.left.ticks))
      else if s.controlpacket.command = cmdBattery then
        consume (respond s cmdBattery s.batteryPercentage 0x00)
      else if s.controlpacket.command = cmdSensor then
        respond s cmdSensor (irBits s.sensors) 0x00
      else s := by
  have hget : (getSensorData s).controlpacket.command = s.controlpacket.command := by
    rw [getSensorData_eq]
    rfl
  unfold processCmd
  rw [if_pos h]
  dsimp only
  by_cases h1 : s.controlpacket.command = cmdGetSensorData
  · have h2 : s.controlpacket.command ≠ cmdRightEncoder := by rw [h1]; decide
    have h3 : s.controlpacket.command ≠ cmdLeftEncoder := by rw [h1]; decide
    have h4 : s.controlpacket.command ≠ cmdBattery := by rw [h1]; decide
    have h5 : s.controlpacket.command ≠ cmdSensor := by rw [h1]; decide
    simp only [if_pos h1, hget, if_neg h2, if_neg h3, if_neg h4, if_neg h5]
  · simp only [if_neg h1]
    by_cases h2 : s.controlpacket.command = cmdRightEncoder
    · have h3 : s.controlpacket.command ≠ cmdLeftEncoder := by rw [h2]; decide
      have h4 : s.controlpacket.command ≠ cmdBattery := by rw [h2]; decide
      have h5 : s.controlpacket.command ≠ cmdSensor := by rw [h2]; decide
      simp only [if_pos h2, command_consume, command_respond, if_neg h3, if_neg h4, if_neg h5]
    · simp only [if_neg h2]
      by_cases h3 : s.controlpacket.command = cmdLeftEncoder
      · have h4 : s.controlpacket.command ≠ cmdBattery := by rw [h3]; decide
        have h5 : s.controlpacket.command ≠ cmdSensor := by rw [h3]; decide
        simp only [if_pos h3, command_consume, command_respond, if_neg h4, if_neg h5]
      · simp only [if_neg h3]
        by_cases h4 : s.controlpacket.command = cmdBattery
        · have h5 : s.controlpacket.command ≠ cmdSensor := by rw [h4]; decide
          simp only [if_pos h4, command_consume, command_respond, if_neg h5]
        · simp only [if_neg h4]

/-- The second half of an iteration pushes the responses and consumes a
complete packet, whatever its command is. -/
theorem ports_handlePacket (s : State) :
    (handlePacket s).ports =
      if s.controlpacket.bytesRecieved = 5 then (s.ports.push (responses s).flatten).consume
      else s.ports := by
  by_cases h : s.controlpacket.bytesRecieved = 5
  · rw [if_pos h, handlePacket, processCmd_eq h, getSensorData_eq, responses, if_pos h]
    split_ifs with hget hright hleft hbattery hsensor hmotors
    · rw [ports_afterProcess_consume]
      simp only [ports_respond, Ports.push_push, List.flatten_cons, List.flatten_nil]
      rfl
    · rw [ports_afterProcess_consume, ports_respond, List.flatten_singleton]
    · rw [ports_afterProcess_consume, ports_respond, List.flatten_singleton]
    · rw [ports_afterProcess_consume, ports_respond, List.flatten_singleton]
    · have hmotors : ¬s.controlpacket.command = cmdMotors := by
        rw [hsensor]
        decide
      rw [ports_afterProcess, command_respond, bytesRecieved_respond, if_pos h,
        if_neg hmotors, ports_respond, List.flatten_singleton]
    · rw [ports_afterProcess, if_pos h, if_pos hmotors, List.flatten_singleton]
    · rw [ports_afterProcess, if_pos h, if_neg hmotors, List.flatten_nil, Ports.push_nil]
  · rw [if_neg h, handlePacket, processCmd, if_neg h, ports_afterProcess, if_neg h]

/-- The transmit buffer takes the responses as far as it has room. -/
theorem handlePacket_tx (s : State) :
    (handlePacket s).txDataBuffer = pushAll s.txDataBuffer (responses s).flatten := by
  rw [← ports_tx, ports_handlePacket]
  split_ifs with hcomplete
  · rfl
  · rw [responses, if_neg hcomplete, List.flatten_nil, pushAll_nil, ports_tx]

/-- How many responses a control packet asks for. -/
def answers (p : ControlData) : Nat :=
  if p.bytesRecieved = 5 then
    if p.command = cmdGetSensorData then 3
    else if p.command ∈ [cmdRightEncoder, cmdLeftEncoder, cmdBattery, cmdSensor, cmdMotors] then 1
    else 0
  else 0

theorem length_responses (s : State) : (responses s).length = answers s.controlpacket := by
  rw [responses, answers]
  split_ifs <;> simp_all

/-- The state with a complete packet that carries a command. -/
def State.asked (s : State) (command : UInt8) : State :=
  { s with controlpacket := { s.controlpacket with bytesRecieved := 5, command := command } }

/-- The bytes that the second half of an iteration pushes, read off an empty
transmit buffer. -/
def pushedBy (s : State) : List UInt8 :=
  (handlePacket { s with txDataBuffer := Buffer.init }).txDataBuffer.contents

theorem pushedBy_eq (s : State) : pushedBy s = (responses s).flatten := by
  have hlen := Lib.Framing.length_flatten_of_forall fun r hr => responses_length (s := s) hr
  have hroom : (responses s).flatten.length ≤ Buffer.init.free := by
    have hfree : Buffer.init.free = 499 := by decide
    have hthree : (responses s).length ≤ 3 := by
      rw [length_responses, answers]
      split_ifs <;> decide
    omega
  have hsame : responses { s with txDataBuffer := Buffer.init } = responses s := rfl
  rw [pushedBy, handlePacket_tx, pushAll_contents, contents_init, hsame, List.nil_append,
    List.take_of_length_le hroom]

/-- Any other transmit buffer with room for them gets the same bytes. -/
theorem handlePacket_contents {s : State} (h : (pushedBy s).length ≤ s.txDataBuffer.free) :
    (handlePacket s).txDataBuffer.contents = s.txDataBuffer.contents ++ pushedBy s := by
  rw [pushedBy_eq] at h ⊢
  rw [handlePacket_tx, pushAll_contents, List.take_of_length_le h]

/-! ## Cut responses -/

/-- Every response that the handlers decide to send is in the transmit buffer
as a whole, or no byte of it is. -/
def Atomic (s : State) : Prop :=
  ∃ kept : List (List UInt8), kept.Sublist (responses s) ∧
    (handlePacket s).txDataBuffer.contents = s.txDataBuffer.contents ++ kept.flatten

/-- The main loop queues its responses whole, exactly if all of them fit or
the free space of the transmit buffer is a multiple of five. -/
theorem handlePacket_atomic_iff (s : State) :
    Atomic s ↔ 5 * answers s.controlpacket ≤ s.txDataBuffer.free ∨ 5 ∣ s.txDataBuffer.free := by
  rw [Atomic, handlePacket_tx, pushAll_contents, ← length_responses]
  simp only [List.append_cancel_left_eq]
  exact Lib.Framing.exists_sublist_flatten_eq_take_iff (fun _ hr => responses_length hr) _

/-- A battery request while two bytes of the transmit buffer are free. -/
def twoFree : State :=
  { State.init with
      txDataBuffer := pushAll Buffer.init (List.replicate 497 0)
      controlpacket := ⟨5, 7, cmdBattery, 0, 0⟩ }

/-- The battery response loses its last three bytes. -/
theorem handlePacket_cuts_battery :
    (handlePacket twoFree).txDataBuffer.contents = List.replicate 497 0 ++ [syncByte, 7] ∧
      ¬Atomic twoFree := by
  have hbefore : twoFree.txDataBuffer.contents = List.replicate 497 0 := by
    rw [twoFree, pushAll_contents, contents_init, List.nil_append,
      List.take_of_length_le (by rw [List.length_replicate]; decide)]
  have hafter : (handlePacket twoFree).txDataBuffer.contents =
      List.replicate 497 0 ++ [syncByte, 7] := by
    rw [handlePacket_tx, pushAll_contents, Buffer.free, hbefore, List.length_replicate]
    rfl
  refine ⟨hafter, ?_⟩
  rintro ⟨kept, hsub, hkept⟩
  rw [hafter, hbefore, List.append_cancel_left_eq] at hkept
  have hlen := Lib.Framing.length_flatten_of_forall fun r hr => responses_length (hsub.subset hr)
  rw [← hkept, List.length_cons, List.length_singleton] at hlen
  omega

end MinotaurRobot.Mcu
