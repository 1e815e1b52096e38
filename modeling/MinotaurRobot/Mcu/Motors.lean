import MinotaurRobot.Mcu.Avoidance
import MinotaurRobot.Mcu.Runs

/-!
# The motors over a run

What the motors do depends on the packets that were handled and on the last
readings of the sensors.  `Settings` is what the packets leave behind, and
`run_drives` has the motor registers of every state of a run as a function of
the settings and the readings.  Together with `run_feed` these are the motors
as a function of the bytes that came in.
-/

namespace MinotaurRobot.Mcu

/-! ## Settings -/

/-- What commands set: the user's wheels, and whether the sensors count. -/
structure Settings where
  userLeft : Wheel
  userRight : Wheel
  sensorEnable : UInt8
  deriving DecidableEq, Repr

def Settings.init : Settings := ⟨Wheel.stopped, Wheel.stopped, 0⟩

def State.settings (s : State) : Settings := ⟨s.userLeft, s.userRight, s.sensorEnable⟩

/-- The settings behind a packet. -/
def Settings.apply (x : Settings) (p : ControlData) : Settings :=
  if p.command = cmdMotors then
    { x with userLeft := userWheel p.data1, userRight := userWheel p.data2 }
  else if p.command = cmdEnableSensors then { x with sensorEnable := p.data1 }
  else if p.command = cmdAutonomousMode then
    if p.data1 = 1 then ⟨⟨0xFF, .forward⟩, ⟨0xFF, .forward⟩, 1⟩ else Settings.init
  else x

/-- The wheels that the settings and the readings select. -/
def Settings.wheels (x : Settings) (v : Sensors) : Wheel × Wheel :=
  if x.sensorEnable ≠ 0 then (evasion v).getD (x.userLeft, x.userRight)
  else (x.userLeft, x.userRight)

/-! ## The sections of an iteration -/

attribute [local irreducible] pushAll

@[simp] theorem settings_interrupt (s : State) (i : Interrupt) :
    (s.interrupt i).settings = s.settings := by
  cases i with
  | u1rx perr ferr =>
    rw [State.interrupt]
    split <;> rfl
  | mi2c1 | adc1 | u1tx | t4 | t3 => rfl

@[simp] theorem settings_readSensors (hw : Hw) (s : State) :
    (readSensors hw s).settings = s.settings := by
  unfold readSensors
  split <;> rfl

theorem settings_debugPrint {s s' : State} (h : debugPrint s = some s') :
    s'.settings = s.settings := by
  unfold debugPrint at h
  split at h
  · obtain ⟨tx, -, rfl⟩ := Option.map_eq_some_iff.1 h
    rfl
  · rw [Option.some.injEq] at h
    rw [h]

@[simp] theorem settings_uartSend (s : State) : (uartSend s).1.settings = s.settings := by
  unfold uartSend
  split <;> rfl

@[simp] theorem settings_uartReceive (hw : Hw) (s : State) :
    (uartReceive hw s).1.settings = s.settings := by
  unfold uartReceive
  split <;> rfl

@[simp] theorem settings_assemble (s : State) : (assemble s).1.settings = s.settings := by
  unfold assemble
  split <;> rfl

@[simp] theorem settings_i2cRequest (s : State) : (i2cRequest s).1.settings = s.settings := by
  unfold i2cRequest
  split <;> rfl

@[simp] theorem settings_i2cService (hw : Hw) (s : State) :
    (i2cService hw s).1.settings = s.settings := by
  unfold i2cService
  split_ifs <;> rfl

@[simp] theorem settings_consume (s : State) : (consume s).settings = s.settings := rfl

@[simp] theorem settings_respond (s : State) (command d1 d2 : UInt8) :
    (respond s command d1 d2).settings = s.settings := by
  rw [respond, State.settings, State.settings]

@[simp] theorem settings_getSensorData (s : State) :
    (getSensorData s).settings = s.settings := by
  rw [getSensorData_eq, settings_consume, settings_respond, settings_respond, settings_respond]

@[simp] theorem settings_processCmd (s : State) : (processCmd s).settings = s.settings := by
  unfold processCmd
  simp only [apply_ite State.settings, settings_respond, settings_consume, settings_getSensorData,
    ite_self]

@[simp] theorem settings_evadeIf (tripped : Bool) (left right : Wheel) (s : State) :
    (evadeIf tripped left right s).settings = s.settings := by
  unfold evadeIf
  split <;> rfl

@[simp] theorem settings_evadeSides (on : Bool) (v : Sensors) (s : State) :
    (evadeSides on v s).settings = s.settings := by
  unfold evadeSides
  split_ifs <;> exact settings_evadeIf ..

@[simp] theorem settings_followUser (s : State) : (followUser s).settings = s.settings := by
  unfold followUser
  split <;> rfl

@[simp] theorem settings_avoidObstacles (s : State) :
    (avoidObstacles s).settings = s.settings := by
  simp only [avoidObstacles, settings_followUser, settings_evadeSides, settings_evadeIf]
  rfl

@[simp] theorem settings_driveMotors (s : State) : (driveMotors s).settings = s.settings := rfl

@[simp] theorem settings_endReset (s : State) : (endReset s).settings = s.settings := by
  unfold endReset
  split <;> rfl

/-! ## The handlers of a packet -/

theorem settings_motorCmd (s : State) :
    (motorCmd s).settings =
      if s.controlpacket.bytesRecieved = 5 ∧ s.controlpacket.command = cmdMotors then
        s.settings.apply s.controlpacket
      else s.settings := by
  unfold motorCmd
  split
  · rename_i h
    rw [respondIfRoom_eq, settings_respond, Settings.apply, if_pos h.2]
    rfl
  · rfl

theorem settings_enableSensors (s : State) :
    (enableSensors s).settings =
      if s.controlpacket.bytesRecieved = 5 ∧ s.controlpacket.command = cmdEnableSensors then
        s.settings.apply s.controlpacket
      else s.settings := by
  unfold enableSensors
  split
  · rename_i h
    have hmotors : s.controlpacket.command ≠ cmdMotors := by rw [h.2]; decide
    rw [Settings.apply, if_neg hmotors, if_pos h.2]
    rfl
  · rfl

theorem settings_autonomousMode (s : State) :
    (autonomousMode s).settings =
      if s.controlpacket.bytesRecieved = 5 ∧ s.controlpacket.command = cmdAutonomousMode then
        s.settings.apply s.controlpacket
      else s.settings := by
  unfold autonomousMode
  split
  · rename_i h
    have hmotors : s.controlpacket.command ≠ cmdMotors := by rw [h.2]; decide
    have henable : s.controlpacket.command ≠ cmdEnableSensors := by rw [h.2]; decide
    rw [Settings.apply, if_neg hmotors, if_neg henable, if_pos h.2]
    have hdata : (consume s).controlpacket.data1 = s.controlpacket.data1 := rfl
    dsimp only
    rw [hdata]
    split <;> rfl
  · rfl

theorem packet_motorCmd (s : State) :
    (motorCmd s).controlpacket =
      if s.controlpacket.bytesRecieved = 5 ∧ s.controlpacket.command = cmdMotors then
        { s.controlpacket with bytesRecieved := 0 }
      else s.controlpacket := by
  rw [← ports_packet, ports_motorCmd]
  by_cases h : s.controlpacket.bytesRecieved = 5 ∧ s.controlpacket.command = cmdMotors
  · rw [if_pos h]
    exact congrArg Ports.packet (if_pos h)
  · rw [if_neg h]
    exact congrArg Ports.packet (if_neg h)

theorem packet_enableSensors (s : State) :
    (enableSensors s).controlpacket = s.controlpacket := by
  rw [← ports_packet, ports_enableSensors]
  rfl

/-- A complete packet is applied by one of the handlers, or changes nothing. -/
theorem settings_afterProcess (s : State) :
    (afterProcess s).settings =
      if s.controlpacket.bytesRecieved = 5 then s.settings.apply s.controlpacket
      else s.settings := by
  rw [afterProcess, settings_endReset, settings_driveMotors, settings_avoidObstacles,
    settings_autonomousMode, settings_enableSensors, packet_enableSensors, packet_motorCmd,
    settings_motorCmd]
  by_cases hmotors : s.controlpacket.bytesRecieved = 5 ∧ s.controlpacket.command = cmdMotors
  · have hconsumed : ∀ command, ¬((0 : UInt8) = 5 ∧ s.controlpacket.command = command) :=
      fun _ h => absurd h.1 (by decide)
    simp only [if_pos hmotors, if_neg (hconsumed _), if_pos hmotors.1]
  · simp only [if_neg hmotors]
    by_cases henable : s.controlpacket.bytesRecieved = 5 ∧
        s.controlpacket.command = cmdEnableSensors
    · have hauto : ¬(s.controlpacket.bytesRecieved = 5 ∧
          s.controlpacket.command = cmdAutonomousMode) := by
        rw [henable.2]
        exact fun h => absurd h.2 (by decide)
      simp only [if_pos henable, if_neg hauto, if_pos henable.1]
    · simp only [if_neg henable]
      by_cases hfull : s.controlpacket.bytesRecieved = 5
      · rw [if_pos hfull]
        by_cases hauto : s.controlpacket.command = cmdAutonomousMode
        · rw [if_pos ⟨hfull, hauto⟩]
        · rw [if_neg fun h => hauto h.2, Settings.apply, if_neg fun h => hmotors ⟨hfull, h⟩,
            if_neg fun h => henable ⟨hfull, h⟩, if_neg hauto]
      · rw [if_neg hfull, if_neg fun h => hfull h.1]

/-- What the responses leave of the control packet: a packet that they consume
has none of the commands that set something. -/
theorem packet_processCmd (s : State) (h : s.controlpacket.bytesRecieved = 5) :
    (processCmd s).controlpacket = s.controlpacket ∨
      (processCmd s).controlpacket = { s.controlpacket with bytesRecieved := 0 } ∧
        ∀ x : Settings, x.apply s.controlpacket = x := by
  have hother : ∀ command, s.controlpacket.command = command → command ≠ cmdMotors →
      command ≠ cmdEnableSensors → command ≠ cmdAutonomousMode →
        ∀ x : Settings, x.apply s.controlpacket = x := by
    intro command hcommand hmotors henable hauto x
    rw [Settings.apply, hcommand, if_neg hmotors, if_neg henable, if_neg hauto]
  rw [processCmd_eq h]
  split_ifs with hget hright hleft hbattery hsensor
  · rw [getSensorData_eq]
    exact Or.inr ⟨rfl, hother _ hget (by decide) (by decide) (by decide)⟩
  · exact Or.inr ⟨rfl, hother _ hright (by decide) (by decide) (by decide)⟩
  · exact Or.inr ⟨rfl, hother _ hleft (by decide) (by decide) (by decide)⟩
  · exact Or.inr ⟨rfl, hother _ hbattery (by decide) (by decide) (by decide)⟩
  · exact Or.inl rfl
  · exact Or.inl rfl

theorem settings_handlePacket (s : State) :
    (handlePacket s).settings =
      if s.controlpacket.bytesRecieved = 5 then s.settings.apply s.controlpacket
      else s.settings := by
  rw [handlePacket, settings_afterProcess, settings_processCmd]
  by_cases hfull : s.controlpacket.bytesRecieved = 5
  · rw [if_pos hfull]
    rcases packet_processCmd s hfull with hsame | ⟨hconsumed, hnothing⟩
    · rw [hsame, if_pos hfull]
    · rw [hconsumed, if_neg (show ¬(0 : UInt8) = 5 by decide), hnothing]
  · rw [if_neg hfull, processCmd, if_neg hfull, if_neg hfull]

/-! ## The motor registers -/

/-- `OC2RS`, `OC3RS` and the bits of `LATE` for the two wheels. -/
structure Outputs where
  oc2rs : UInt16
  oc3rs : UInt16
  late : UInt16
  deriving DecidableEq, Repr

def State.outputs (s : State) : Outputs := ⟨s.oc2rs, s.oc3rs, s.late⟩

/-- The bit of a wheel's direction. -/
def Direction.bit (forward backward : UInt16) : Direction → UInt16
  | .stop => 0
  | .forward => forward
  | .backward => backward

/-- The registers for two wheels: the duty cycles in nine bits, and one bit at
most for the direction of each wheel. -/
def outputsOf (wheels : Wheel × Wheel) : Outputs where
  oc2rs := (wheels.1.speed <<< 1) &&& 0x1FF
  oc3rs := (wheels.2.speed <<< 1) &&& 0x1FF
  late := wheels.1.direction.bit 0x02 0x04 ||| wheels.2.direction.bit 0x08 0x10

theorem outputs_driveMotors (s : State) :
    (driveMotors s).outputs = outputsOf (s.left, s.right) := by
  unfold State.outputs outputsOf driveMotors
  dsimp only
  cases s.left.direction <;> cases s.right.direction <;> rfl

theorem outputs_endReset (s : State) : (endReset s).outputs = s.outputs := by
  unfold endReset
  split <;> rfl

/-- The avoidance section selects the wheels. -/
theorem wheels_avoidObstacles (s : State) :
    ((avoidObstacles s).left, (avoidObstacles s).right) = s.settings.wheels s.sensors := by
  show _ = if s.sensorEnable ≠ 0 then (evasion s.sensors).getD (s.userLeft, s.userRight)
    else (s.userLeft, s.userRight)
  by_cases hon : s.sensorEnable ≠ 0
  · rw [if_pos hon]
    exact avoidObstacles_wheels hon
  · have hoff : (s.sensorEnable != 0) = false := by simpa using hon
    have hnot : ∀ left right (s : State), evadeIf false left right s = s := fun _ _ _ => rfl
    have hsides : ∀ v (s : State), evadeSides false v s = s := by
      intro v s
      unfold evadeSides
      simp only [Bool.false_and, Bool.false_eq_true, if_false, hnot]
    rw [if_neg hon]
    simp only [avoidObstacles, hoff, Bool.false_and, hnot, hsides]
    rfl

/-- The registers are those of the settings and the readings. -/
def State.Driven (s : State) : Prop := s.outputs = outputsOf (s.settings.wheels s.sensors)

theorem driven_init : State.init.Driven := by
  unfold State.Driven
  decide

theorem driven_afterProcess (s : State) : (afterProcess s).Driven := by
  unfold State.Driven
  rw [afterProcess]
  generalize autonomousMode (enableSensors (motorCmd s)) = mid
  have hinputs : (endReset (driveMotors (avoidObstacles mid))).inputs = mid.inputs := by
    rw [inputs_endReset, inputs_driveMotors, inputs_avoidObstacles]
  have hsensors : (endReset (driveMotors (avoidObstacles mid))).sensors = mid.sensors :=
    congrArg Inputs.sensors hinputs
  rw [outputs_endReset, outputs_driveMotors, wheels_avoidObstacles, settings_endReset,
    settings_driveMotors, settings_avoidObstacles, hsensors]

/-- One iteration: the packet that is handled sets the settings, and the
registers follow. -/
theorem iterate_settings {hw : Hw} {s s' : State} {t : Trace} (h : iterate hw s = some (s', t)) :
    s'.settings = (t.handled.map State.controlpacket).toList.foldl Settings.apply s.settings ∧
      s'.Driven := by
  simp only [iterate, Option.bind_eq_bind, Option.bind_eq_some_iff, Option.pure_def,
    Option.some.injEq, Prod.mk.injEq] at h
  obtain ⟨s₁, hprint, rfl, rfl⟩ := h
  have hmid : (i2cService hw (i2cRequest (assemble (uartReceive hw
      (uartSend s₁).1).1).1).1).1.settings = s.settings := by
    rw [settings_i2cService, settings_i2cRequest, settings_assemble, settings_uartReceive,
      settings_uartSend, settings_debugPrint hprint, settings_readSensors]
  generalize (i2cService hw (i2cRequest (assemble (uartReceive hw
    (uartSend s₁).1).1).1).1).1 = mid at hmid ⊢
  refine ⟨?_, driven_afterProcess (processCmd mid)⟩
  rw [settings_handlePacket, ← hmid]
  by_cases hfull : mid.controlpacket.bytesRecieved = 5
  · simp only [if_pos hfull]
    rfl
  · simp only [if_neg hfull]
    rfl

theorem driven_interrupt {s : State} (h : s.Driven) (i : Interrupt) : (s.interrupt i).Driven := by
  cases i with
  | u1rx perr ferr =>
    rw [State.interrupt]
    split <;> exact h
  | mi2c1 | adc1 | u1tx | t4 | t3 => exact h

theorem run_settings {events : List Event} {s s' : State} {ts : List Trace}
    (h : run s events = some (s', ts)) (hdriven : s.Driven) :
    s'.settings = (handledPackets ts).foldl Settings.apply s.settings ∧ s'.Driven := by
  induction events generalizing s ts with
  | nil =>
    rw [run, Option.some.injEq, Prod.mk.injEq] at h
    obtain ⟨rfl, rfl⟩ := h
    exact ⟨rfl, hdriven⟩
  | cons event events ih =>
    cases event with
    | interrupt i =>
      obtain ⟨hsettings, hdriven'⟩ := ih h (driven_interrupt hdriven i)
      rw [settings_interrupt] at hsettings
      exact ⟨hsettings, hdriven'⟩
    | iterate hw =>
      obtain ⟨s₁, t, ts', hiterate, hrun, rfl⟩ := run_iterate_eq_some h
      obtain ⟨hstep, hdriven₁⟩ := iterate_settings hiterate
      obtain ⟨hsettings, hdriven'⟩ := ih hrun hdriven₁
      rw [handledPackets, List.flatMap_cons, List.foldl_append, ← hstep]
      exact ⟨hsettings, hdriven'⟩

/-- In every state of a run the motor registers are those of the settings that
the packets in the popped bytes have left, and of the last readings. -/
theorem run_drives {events : List Event} {s : State} {ts : List Trace}
    (h : run State.init events = some (s, ts)) :
    s.outputs = outputsOf
      (((feed State.init.controlpacket (popped ts)).2.foldl Settings.apply Settings.init).wheels
        s.sensors) := by
  have hle : State.init.controlpacket.bytesRecieved ≤ 4 := by decide
  obtain ⟨hsettings, hdriven⟩ := run_settings h driven_init
  rw [(run_feed h hle).1]
  rw [State.Driven, hsettings] at hdriven
  exact hdriven

/-- A motor command, the command that enables the sensors, and a reading. -/
def avoidEvents : List Event :=
  ([0xAA, 1, 0x01, 0x40, 0x40, 0xAA, 2, 0x03, 1, 0].flatMap fun c =>
    [.interrupt (.u1rx false false), .iterate ⟨0, 0, 0, 0, 0, c, 0⟩]) ++
  [.interrupt .adc1, .iterate ⟨0, 0, 0, 1021, 0, 0, 0⟩]

/-- The robot turns away instead of driving on. -/
theorem run_drives_avoid :
    ∃ s ts, run State.init avoidEvents = some (s, ts) ∧
      s.outputs = outputsOf (⟨0xFF, .backward⟩, ⟨0xFF, .forward⟩) := by
  have hread : (run State.init avoidEvents).map (fun r => (r.1.sensors, popped r.2)) =
      some (⟨1021, 0, 0, 0, 0⟩, [0xAA, 1, 0x01, 0x40, 0x40, 0xAA, 2, 0x03, 1, 0]) := by
    decide +kernel
  obtain ⟨⟨s, ts⟩, hrun, hread⟩ := Option.map_eq_some_iff.1 hread
  rw [Prod.mk.injEq] at hread
  refine ⟨s, ts, hrun, ?_⟩
  rw [run_drives hrun, hread.1, hread.2]
  decide +kernel

end MinotaurRobot.Mcu
