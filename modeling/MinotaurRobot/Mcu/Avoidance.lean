import MinotaurRobot.Mcu.Inputs

/-!
# Obstacle avoidance

The blocks of the avoidance section overwrite the same wheel variables one
after the other, so the last block whose sensors have tripped decides.
`evasion` is that decision as one function of the readings, and
`avoidObstacles_wheels` proves it against the section.

A rear sensor is tested behind the front centre sensor and the front side
sensors behind both.  `iterate_avoids_iff` gives the readings for which no
wheel pair is driven towards a tripped side.
-/

namespace MinotaurRobot.Mcu

/-- The wheels of the last block whose sensors have tripped. -/
def evasion (v : Sensors) : Option (Wheel × Wheel) :=
  if v.sensor1 > senMax ∧ v.sensor3 > senMax then
    some (⟨0xFF, .backward⟩, ⟨0x10, .backward⟩)
  else if v.sensor1 > senMax then some (⟨0xFF, .backward⟩, ⟨0xFF, .forward⟩)
  else if v.sensor3 > senMax then some (⟨0xFF, .forward⟩, ⟨0xFF, .backward⟩)
  else if v.sensor5 > senMax then some (⟨0xFF, .forward⟩, ⟨0xFF, .forward⟩)
  else if v.sensor4 > senMax then some (⟨0xFF, .forward⟩, ⟨0xFF, .forward⟩)
  else if v.sensor2 > senMax then some (⟨0xFF, .forward⟩, ⟨0xFF, .backward⟩)
  else none

/-- The wheels and the flag that the blocks write. -/
def State.motion (s : State) : Bool × Wheel × Wheel := (s.sensorTripped, s.left, s.right)

theorem motion_evadeIf (tripped : Bool) (left right : Wheel) (s : State) :
    (evadeIf tripped left right s).motion = if tripped then (true, left, right) else s.motion := by
  unfold evadeIf
  split <;> rfl

theorem motion_evadeSides (v : Sensors) (s : State) :
    (evadeSides true v s).motion =
      if v.sensor1 > senMax ∧ v.sensor3 > senMax then
        (true, ⟨0xFF, .backward⟩, ⟨0x10, .backward⟩)
      else if v.sensor1 > senMax then (true, ⟨0xFF, .backward⟩, ⟨0xFF, .forward⟩)
      else if v.sensor3 > senMax then (true, ⟨0xFF, .forward⟩, ⟨0xFF, .backward⟩)
      else s.motion := by
  unfold evadeSides
  simp only [Bool.true_and, Bool.and_eq_true, decide_eq_true_eq, apply_ite State.motion,
    motion_evadeIf, if_true]

theorem motion_followUser (s : State) :
    ((followUser s).left, (followUser s).right) =
      if s.motion.1 then s.motion.2 else (s.userLeft, s.userRight) := by
  unfold followUser State.motion
  split <;> rfl

/-- The evasion wins over the user, and a later block over an earlier one. -/
theorem avoidObstacles_wheels {s : State} (hon : s.sensorEnable ≠ 0) :
    ((avoidObstacles s).left, (avoidObstacles s).right) =
      (evasion s.sensors).getD (s.userLeft, s.userRight) := by
  have hon : (s.sensorEnable != 0) = true := bne_iff_ne.2 hon
  have huser : ∀ on left right (s : State), (evadeIf on left right s).userLeft = s.userLeft ∧
      (evadeIf on left right s).userRight = s.userRight := by
    intro on left right s
    unfold evadeIf
    split <;> exact ⟨rfl, rfl⟩
  have husers : ∀ v (s : State), (evadeSides true v s).userLeft = s.userLeft ∧
      (evadeSides true v s).userRight = s.userRight := by
    intro v s
    unfold evadeSides
    split_ifs <;> exact huser ..
  have hmotion : (evadeSides true s.sensors (evadeIf (s.sensors.sensor5 > senMax)
      ⟨0xFF, .forward⟩ ⟨0xFF, .forward⟩ (evadeIf (s.sensors.sensor4 > senMax)
      ⟨0xFF, .forward⟩ ⟨0xFF, .forward⟩ (evadeIf (s.sensors.sensor2 > senMax)
      ⟨0xFF, .forward⟩ ⟨0xFF, .backward⟩ { s with sensorTripped := false })))).motion =
        (evasion s.sensors).elim (false, s.left, s.right) (fun wheels => (true, wheels)) := by
    unfold evasion
    simp only [motion_evadeSides, motion_evadeIf, decide_eq_true_eq]
    split_ifs <;> rfl
  unfold avoidObstacles
  simp only [hon, motion_followUser, Bool.true_and, hmotion, husers, huser]
  cases evasion s.sensors <;> rfl

/-! ## Motor outputs -/

/-- Both wheels are driven forward. -/
def State.BothForward (s : State) : Prop := s.late &&& 0x02 ≠ 0 ∧ s.late &&& 0x08 ≠ 0

/-- Both wheels are driven backward. -/
def State.BothBackward (s : State) : Prop := s.late &&& 0x04 ≠ 0 ∧ s.late &&& 0x10 ≠ 0

theorem driveMotors_late (s : State) :
    ((driveMotors s).BothForward ↔ s.left.direction = .forward ∧ s.right.direction = .forward) ∧
      ((driveMotors s).BothBackward ↔
        s.left.direction = .backward ∧ s.right.direction = .backward) := by
  unfold State.BothForward State.BothBackward driveMotors
  dsimp only
  cases s.left.direction <;> cases s.right.direction <;> decide

theorem endReset_outputs (s : State) :
    ((endReset s).BothForward ↔ s.BothForward) ∧ ((endReset s).BothBackward ↔ s.BothBackward) ∧
      (endReset s).oc2rs = s.oc2rs ∧ (endReset s).oc3rs = s.oc3rs ∧
      (endReset s).sensorEnable = s.sensorEnable := by
  unfold endReset
  split <;> exact ⟨Iff.rfl, Iff.rfl, rfl, rfl, rfl⟩

theorem sensorEnable_avoidObstacles (s : State) :
    (avoidObstacles s).sensorEnable = s.sensorEnable := by
  have hevade : ∀ on left right (s : State),
      (evadeIf on left right s).sensorEnable = s.sensorEnable := by
    intro on left right s
    unfold evadeIf
    split <;> rfl
  have hsides : ∀ on v (s : State), (evadeSides on v s).sensorEnable = s.sensorEnable := by
    intro on v s
    unfold evadeSides
    split_ifs <;> exact hevade ..
  have hfollow : ∀ s : State, (followUser s).sensorEnable = s.sensorEnable := by
    intro s
    unfold followUser
    split <;> rfl
  unfold avoidObstacles
  simp only [hfollow, hsides, hevade]

/-! ## Tripped sides -/

/-- The drop in front of the robot. -/
def Sensors.FrontTripped (v : Sensors) : Prop := v.sensor2 > senMax

/-- A drop behind the robot. -/
def Sensors.RearTripped (v : Sensors) : Prop := v.sensor4 > senMax ∨ v.sensor5 > senMax

/-- Exactly one of the front side sensors has tripped. -/
def Sensors.OneSideTripped (v : Sensors) : Prop :=
  (v.sensor1 > senMax ∧ ¬v.sensor3 > senMax) ∨ (¬v.sensor1 > senMax ∧ v.sensor3 > senMax)

/-- No sensor in front has tripped. -/
def Sensors.FrontClear (v : Sensors) : Prop :=
  ¬v.sensor1 > senMax ∧ ¬v.sensor2 > senMax ∧ ¬v.sensor3 > senMax

/-- The motor outputs do not drive towards a tripped side. -/
def Avoids (v : Sensors) (s : State) : Prop :=
  (v.FrontTripped → ¬s.BothForward) ∧ (v.RearTripped → ¬s.BothBackward)

/-- No rear sensor has tripped, or exactly one front side sensor has, or no
sensor in front has. -/
def Sensors.Resolvable (v : Sensors) : Prop :=
  ¬v.RearTripped ∨ v.OneSideTripped ∨ v.FrontClear

/-- The wheels that an evasion leaves to the drop in front and the drop
behind. -/
theorem evasion_avoids_iff {v : Sensors} {left right userLeft userRight : Wheel}
    (h : (left, right) = (evasion v).getD (userLeft, userRight)) :
    ((v.FrontTripped → ¬(left.direction = .forward ∧ right.direction = .forward)) ∧
        (v.RearTripped → ¬(left.direction = .backward ∧ right.direction = .backward)) ↔
      v.Resolvable) ∧
      (v.FrontTripped ∨ v.RearTripped →
        (left.speed = 0xFF ∨ left.speed = 0x10) ∧ (right.speed = 0xFF ∨ right.speed = 0x10)) := by
  unfold evasion at h
  unfold Sensors.Resolvable Sensors.RearTripped Sensors.OneSideTripped Sensors.FrontClear
    Sensors.FrontTripped
  split_ifs at h with hsides hleft hright hrear5 hrear4 hfront <;>
    obtain ⟨rfl, rfl⟩ := Prod.mk.inj h <;> simp_all

/-- The duty cycle of an evasion is positive. -/
theorem dutyCycle_ne_zero {speed : UInt16} (h : speed = 0xFF ∨ speed = 0x10) :
    (speed <<< 1) &&& 0x1FF ≠ 0 := by
  rcases h with rfl | rfl <;> decide

/-- The outputs of an iteration avoid the tripped sides exactly for the
readings that are `Resolvable`.  While a drop is reported both duty cycles are
positive, so that the direction bits decide about the motion. -/
theorem iterate_avoids_iff {hw : Hw} {s s' : State} {t : Trace}
    (h : iterate hw s = some (s', t)) (hon : s'.sensorEnable ≠ 0) :
    (Avoids (readSensors hw s).sensors s' ↔ (readSensors hw s).sensors.Resolvable) ∧
      ((readSensors hw s).sensors.FrontTripped ∨ (readSensors hw s).sensors.RearTripped →
        s'.oc2rs ≠ 0 ∧ s'.oc3rs ≠ 0) := by
  obtain ⟨mid, hsensors, rfl⟩ := (iterate_inputs h).motors
  rw [← hsensors]
  obtain ⟨hfor, hback, hleft, hright, henable⟩ :=
    endReset_outputs (driveMotors (avoidObstacles mid))
  have hon' : mid.sensorEnable ≠ 0 := by
    rw [henable] at hon
    rw [← sensorEnable_avoidObstacles]
    exact hon
  obtain ⟨hfor', hback'⟩ := driveMotors_late (avoidObstacles mid)
  obtain ⟨hsafe, hspeed⟩ := evasion_avoids_iff (avoidObstacles_wheels hon')
  rw [Avoids, hfor, hback, hfor', hback', hleft, hright]
  refine ⟨hsafe, ?_⟩
  intro htripped
  exact ⟨dutyCycle_ne_zero (hspeed htripped).1, dutyCycle_ne_zero (hspeed htripped).2⟩

/-- The state of a robot with its sensors enabled and a conversion done. -/
def sensorsOn : State := { State.init with sensorEnable := 1, sensorsReady := true }

/-- A drop in front and an obstacle to the left: the robot turns. -/
theorem iterate_avoids_left :
    ∃ s' t, iterate ⟨0, 0, 1021, 1021, 0, 0, 0⟩ sensorsOn = some (s', t) ∧
      Avoids ⟨1021, 1021, 0, 0, 0⟩ s' := by
  have hclear : ¬(Sensors.mk 1021 1021 0 0 0).RearTripped := by
    unfold Sensors.RearTripped
    decide
  obtain ⟨s', t, h, hon⟩ : ∃ s' t, iterate ⟨0, 0, 1021, 1021, 0, 0, 0⟩ sensorsOn =
      some (s', t) ∧ s'.sensorEnable ≠ 0 := ⟨_, _, rfl, by decide⟩
  exact ⟨s', t, h, (iterate_avoids_iff h hon).1.2 (Or.inl hclear)⟩

/-- A drop in front and a drop behind: the robot drives on over the one in
front. -/
theorem iterate_drives_over_drop :
    ∃ s' t, iterate ⟨1021, 0, 1021, 0, 0, 0, 0⟩ sensorsOn = some (s', t) ∧
      s'.sensorEnable ≠ 0 ∧ s'.sensors.FrontTripped ∧ s'.BothForward ∧
      s'.oc2rs = 0x1FE ∧ s'.oc3rs = 0x1FE := by
  refine ⟨_, _, rfl, by decide, ?_, ⟨by decide, by decide⟩, rfl, rfl⟩
  show (1021 : Int) > senMax
  decide

end MinotaurRobot.Mcu
