import MinotaurRobot.Mcu.Runs

/-!
# The inputs of an iteration

The converted sensor readings, the receive flag of the UART and the flags of
the I2C transaction are each changed in one place of the main loop only:
`readSensors`, `uartReceive` and the two I2C sections.  `iterate_inputs` says
so, and gives the state that the obstacle avoidance works on.
-/

namespace MinotaurRobot.Mcu

/-- The flags that carry the position in the fuel gauge transaction. -/
structure I2cFlags where
  getBatt : Bool
  i2cStart : UInt8
  i2cRestart : UInt8
  i2cStop : UInt8
  i2cSendByte : UInt8
  i2cRecvByte : UInt8
  i2cIsr : Bool

/-- The parts of the state that interrupts and the hardware feed. -/
structure Inputs where
  sensors : Sensors
  readyToRec : Bool
  i2c : I2cFlags

def State.i2c (s : State) : I2cFlags :=
  ⟨s.getBatt, s.i2cStart, s.i2cRestart, s.i2cStop, s.i2cSendByte, s.i2cRecvByte, s.i2cIsr⟩

def State.inputs (s : State) : Inputs := ⟨s.sensors, s.readyToRec, s.i2c⟩

theorem inputs_eq_iff {s s' : State} : s.inputs = s'.inputs ↔
    s.sensors = s'.sensors ∧ s.readyToRec = s'.readyToRec ∧ s.i2c = s'.i2c := by
  rw [State.inputs, State.inputs, Inputs.mk.injEq]

-- the handlers are compared without running the pushes
attribute [local irreducible] pushAll

/-! ## Sections that leave the inputs alone -/

theorem inputs_debugPrint {s s' : State} (h : debugPrint s = some s') : s'.inputs = s.inputs := by
  unfold debugPrint at h
  split at h
  · obtain ⟨tx, -, rfl⟩ := Option.map_eq_some_iff.1 h
    rfl
  · rw [Option.some.injEq] at h
    rw [h]

@[simp] theorem inputs_uartSend (s : State) : (uartSend s).1.inputs = s.inputs := by
  unfold uartSend
  split <;> rfl

@[simp] theorem inputs_assemble (s : State) : (assemble s).1.inputs = s.inputs := by
  unfold assemble
  split <;> rfl

@[simp] theorem inputs_consume (s : State) : (consume s).inputs = s.inputs := rfl

@[simp] theorem inputs_respond (s : State) (command d1 d2 : UInt8) :
    (respond s command d1 d2).inputs = s.inputs := by
  rw [respond, State.inputs, State.inputs, State.i2c, State.i2c]

@[simp] theorem inputs_getSensorData (s : State) : (getSensorData s).inputs = s.inputs := by
  rw [getSensorData_eq, inputs_consume, inputs_respond, inputs_respond, inputs_respond]

@[simp] theorem inputs_processCmd (s : State) : (processCmd s).inputs = s.inputs := by
  unfold processCmd
  simp only [apply_ite State.inputs, inputs_respond, inputs_consume, inputs_getSensorData,
    ite_self]

@[simp] theorem inputs_motorCmd (s : State) : (motorCmd s).inputs = s.inputs := by
  unfold motorCmd
  simp only [respondIfRoom_eq, apply_ite State.inputs, inputs_respond]
  split <;> rfl

@[simp] theorem inputs_enableSensors (s : State) : (enableSensors s).inputs = s.inputs := by
  unfold enableSensors
  split <;> rfl

@[simp] theorem inputs_autonomousMode (s : State) : (autonomousMode s).inputs = s.inputs := by
  unfold autonomousMode
  split
  · dsimp only
    split <;> rfl
  · rfl

@[simp] theorem inputs_evadeIf (tripped : Bool) (left right : Wheel) (s : State) :
    (evadeIf tripped left right s).inputs = s.inputs := by
  unfold evadeIf
  split <;> rfl

@[simp] theorem inputs_evadeSides (on : Bool) (v : Sensors) (s : State) :
    (evadeSides on v s).inputs = s.inputs := by
  unfold evadeSides
  split_ifs <;> exact inputs_evadeIf ..

@[simp] theorem inputs_followUser (s : State) : (followUser s).inputs = s.inputs := by
  unfold followUser
  split <;> rfl

@[simp] theorem inputs_avoidObstacles (s : State) : (avoidObstacles s).inputs = s.inputs := by
  simp only [avoidObstacles, inputs_followUser, inputs_evadeSides, inputs_evadeIf]
  rfl

@[simp] theorem inputs_driveMotors (s : State) : (driveMotors s).inputs = s.inputs := rfl

@[simp] theorem inputs_endReset (s : State) : (endReset s).inputs = s.inputs := by
  unfold endReset
  split <;> rfl

@[simp] theorem inputs_handlePacket (s : State) : (handlePacket s).inputs = s.inputs := by
  simp only [handlePacket, afterProcess, inputs_endReset, inputs_driveMotors,
    inputs_avoidObstacles, inputs_autonomousMode, inputs_enableSensors, inputs_motorCmd,
    inputs_processCmd]

/-! ## Sections that change one input -/

theorem inputs_readSensors (hw : Hw) (s : State) :
    (readSensors hw s).inputs = { s.inputs with sensors := (readSensors hw s).sensors } := by
  unfold readSensors
  split <;> rfl

/-- A received byte is stored exactly if the flag is set and the receive
buffer has room, and storing it clears the flag. -/
theorem inputs_uartReceive (hw : Hw) (s : State) :
    (uartReceive hw s).1.inputs =
        { s.inputs with readyToRec := s.readyToRec && (uartReceive hw s).2.isNone } ∧
      (uartReceive hw s).2 =
        if s.readyToRec ∧ s.rxDataBuffer.free ≠ 0 then some hw.u1rxreg else none := by
  have hroom : (s.readyToRec && buffStatus s.rxDataBuffer != .full) = true ↔
      s.readyToRec ∧ s.rxDataBuffer.free ≠ 0 := by
    rw [Bool.and_eq_true_iff, bne_iff_ne, ne_eq, buffStatus_eq_full_iff]
  unfold uartReceive
  by_cases h : s.readyToRec ∧ s.rxDataBuffer.free ≠ 0
  · rw [if_pos (hroom.2 h), if_pos h]
    refine ⟨?_, rfl⟩
    rw [Option.isNone_some, Bool.and_false]
    rfl
  · rw [if_neg (mt hroom.1 h), if_neg h]
    refine ⟨?_, rfl⟩
    rw [Option.isNone_none, Bool.and_true]
    rfl

/-! ## The I2C sections on the flags -/

/-- `i2cRequest` and `i2cService`, one after the other. -/
def i2cSection (hw : Hw) (s : State) : State × List BusAction :=
  let (s, bus) := i2cRequest s
  let (s, bus') := i2cService hw s
  (s, bus ++ bus')

theorem otherInputs_ite {c : Prop} [Decidable c] {a b : State × List BusAction} {s : State}
    (ha : a.1.sensors = s.sensors ∧ a.1.readyToRec = s.readyToRec)
    (hb : b.1.sensors = s.sensors ∧ b.1.readyToRec = s.readyToRec) :
    (if c then a else b).1.sensors = s.sensors ∧
      (if c then a else b).1.readyToRec = s.readyToRec := by
  by_cases h : c
  · rw [if_pos h]
    exact ha
  · rw [if_neg h]
    exact hb

/-- The I2C sections leave the other inputs alone. -/
theorem inputs_i2cSection (hw : Hw) (s : State) :
    (i2cSection hw s).1.sensors = s.sensors ∧ (i2cSection hw s).1.readyToRec = s.readyToRec := by
  have hrequest : (i2cRequest s).1.sensors = s.sensors ∧
      (i2cRequest s).1.readyToRec = s.readyToRec := by
    unfold i2cRequest
    split <;> exact ⟨rfl, rfl⟩
  have hservice : ∀ s₁ : State, (i2cService hw s₁).1.sensors = s₁.sensors ∧
      (i2cService hw s₁).1.readyToRec = s₁.readyToRec := by
    intro s₁
    unfold i2cService
    repeat' apply otherInputs_ite
    all_goals exact ⟨rfl, rfl⟩
  have h := hservice (i2cRequest s).1
  exact ⟨h.1.trans hrequest.1, h.2.trans hrequest.2⟩

theorem i2cRequest_congr {s₁ s₂ : State} (h : s₁.i2c = s₂.i2c) :
    (i2cRequest s₁).1.i2c = (i2cRequest s₂).1.i2c ∧ (i2cRequest s₁).2 = (i2cRequest s₂).2 := by
  have hbatt : s₁.getBatt = s₂.getBatt := congrArg I2cFlags.getBatt h
  have hstart : { s₁.i2c with i2cStart := 1 } = { s₂.i2c with i2cStart := 1 } := by rw [h]
  unfold i2cRequest
  by_cases hget : s₂.getBatt
  · rw [if_pos hget, if_pos (hbatt.trans hget)]
    exact ⟨hstart, rfl⟩
  · rw [if_neg hget, if_neg (hbatt ▸ hget)]
    exact ⟨h, rfl⟩

theorem i2c_ite {c : Prop} [Decidable c] {a b a' b' : State × List BusAction}
    (ha : a.1.i2c = a'.1.i2c ∧ a.2 = a'.2) (hb : b.1.i2c = b'.1.i2c ∧ b.2 = b'.2) :
    (if c then a else b).1.i2c = (if c then a' else b').1.i2c ∧
      (if c then a else b).2 = (if c then a' else b').2 := by
  by_cases h : c
  · rw [if_pos h, if_pos h]
    exact ha
  · rw [if_neg h, if_neg h]
    exact hb

theorem i2cService_congr (hw : Hw) {s₁ s₂ : State} (h : s₁.i2c = s₂.i2c) :
    (i2cService hw s₁).1.i2c = (i2cService hw s₂).1.i2c ∧
      (i2cService hw s₁).2 = (i2cService hw s₂).2 := by
  have hstart : s₁.i2cStart = s₂.i2cStart := congrArg I2cFlags.i2cStart h
  have hrestart : s₁.i2cRestart = s₂.i2cRestart := congrArg I2cFlags.i2cRestart h
  have hstop : s₁.i2cStop = s₂.i2cStop := congrArg I2cFlags.i2cStop h
  have hsend : s₁.i2cSendByte = s₂.i2cSendByte := congrArg I2cFlags.i2cSendByte h
  have hrecv : s₁.i2cRecvByte = s₂.i2cRecvByte := congrArg I2cFlags.i2cRecvByte h
  have hisr : s₁.i2cIsr = s₂.i2cIsr := congrArg I2cFlags.i2cIsr h
  have hbatt : s₁.getBatt = s₂.getBatt := congrArg I2cFlags.getBatt h
  unfold i2cService
  rw [hisr, hstart, hsend, hrestart, hrecv, hstop, hbatt]
  repeat' apply i2c_ite
  all_goals first
    | exact ⟨rfl, rfl⟩
    | exact ⟨h, rfl⟩

/-- What the I2C sections do on the bus and to their flags depends on the
flags only. -/
theorem i2cSection_congr (hw : Hw) {s₁ s₂ : State} (h : s₁.i2c = s₂.i2c) :
    (i2cSection hw s₁).1.i2c = (i2cSection hw s₂).1.i2c ∧
      (i2cSection hw s₁).2 = (i2cSection hw s₂).2 := by
  obtain ⟨hflags, hbus⟩ := i2cRequest_congr h
  obtain ⟨hflags', hbus'⟩ := i2cService_congr hw hflags
  exact ⟨hflags', congrArg₂ (· ++ ·) hbus hbus'⟩

/-! ## One iteration -/

/-- What one iteration does to the inputs.  `mid` is the state behind the
handling of the command, which the obstacle avoidance works on. -/
structure Serviced (hw : Hw) (s s' : State) (t : Trace) : Prop where
  sensors : s'.sensors = (readSensors hw s).sensors
  received : t.received =
    if s.readyToRec ∧ s.rxDataBuffer.free ≠ 0 then some hw.u1rxreg else none
  readyToRec : s'.readyToRec = (s.readyToRec && t.received.isNone)
  i2c : s'.i2c = (i2cSection hw s).1.i2c
  bus : t.bus = (i2cSection hw s).2
  motors : ∃ mid, mid.sensors = (readSensors hw s).sensors ∧
    s' = endReset (driveMotors (avoidObstacles mid))

theorem iterate_inputs {hw : Hw} {s s' : State} {t : Trace}
    (h : iterate hw s = some (s', t)) : Serviced hw s s' t := by
  simp only [iterate, Option.bind_eq_bind, Option.bind_eq_some_iff, Option.pure_def,
    Option.some.injEq, Prod.mk.injEq] at h
  obtain ⟨s₁, hprint, rfl, rfl⟩ := h
  have hports : s₁.rxDataBuffer = s.rxDataBuffer :=
    (congrArg Ports.rx (ports_debugPrint hprint)).trans
      (congrArg Ports.rx (ports_readSensors hw s))
  have hfree : (uartSend s₁).1.rxDataBuffer.free = s.rxDataBuffer.free := by
    rw [(uartSend_spec s₁).2.1, hports]
  have hsent : (uartSend s₁).1.inputs =
      { s.inputs with sensors := (readSensors hw s).sensors } := by
    rw [inputs_uartSend, inputs_debugPrint hprint, inputs_readSensors]
  have hready : (uartSend s₁).1.readyToRec = s.readyToRec := congrArg Inputs.readyToRec hsent
  obtain ⟨hrec, hstored⟩ := inputs_uartReceive hw (uartSend s₁).1
  rw [hready, hfree] at hstored
  rw [hready, hsent] at hrec
  have hassembled : (assemble (uartReceive hw (uartSend s₁).1).1).1.inputs = _ :=
    (inputs_assemble _).trans hrec
  generalize (assemble (uartReceive hw (uartSend s₁).1).1).1 = asm at hassembled ⊢
  have hflags : asm.i2c = s.i2c := congrArg Inputs.i2c hassembled
  have hread : asm.sensors = (readSensors hw s).sensors := congrArg Inputs.sensors hassembled
  have hflag : asm.readyToRec = (s.readyToRec && _) := congrArg Inputs.readyToRec hassembled
  obtain ⟨hcongr, hbus⟩ := i2cSection_congr hw hflags
  obtain ⟨hsensors, hready'⟩ := inputs_i2cSection hw asm
  have hsection : i2cSection hw asm = ((i2cService hw (i2cRequest asm).1).1,
    (i2cRequest asm).2 ++ (i2cService hw (i2cRequest asm).1).2) := rfl
  rw [hsection] at hcongr hbus hsensors hready'
  generalize (i2cService hw (i2cRequest asm).1).1 = sec at hcongr hbus hsensors hready' ⊢
  obtain ⟨hend₁, hend₂, hend₃⟩ := inputs_eq_iff.1 (inputs_handlePacket sec)
  have hmid : (autonomousMode (enableSensors (motorCmd (processCmd sec)))).inputs =
      sec.inputs := by
    rw [inputs_autonomousMode, inputs_enableSensors, inputs_motorCmd, inputs_processCmd]
  refine ⟨?_, hstored, ?_, ?_, hbus,
    autonomousMode (enableSensors (motorCmd (processCmd sec))), ?_, ?_⟩
  · exact hend₁.trans (hsensors.trans hread)
  · exact hend₂.trans (hready'.trans hflag)
  · exact hend₃.trans hcongr
  · exact (inputs_eq_iff.1 hmid).1.trans (hsensors.trans hread)
  · rw [handlePacket, afterProcess]

end MinotaurRobot.Mcu
