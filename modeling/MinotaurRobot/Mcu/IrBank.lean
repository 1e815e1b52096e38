import MinotaurRobot.Mcu.Responses

/-!
# The bits of the IR bank

The byte of an IR response has one bit for each sensor, and two commands ask
for it.  `irByte` finds it among the bytes that the main loop pushes.  `irBits_testBit` gives the bits.  Bit 1 is that of the second sensor,
but its lower threshold is tested on the fourth one, so two sets of readings
with the same second sensor can differ in it.
-/

namespace MinotaurRobot.Mcu

/-- `SENSOR1` to `SENSOR5`. -/
def Sensors.reading (v : Sensors) (k : Fin 5) : Int :=
  match k with
  | 0 => v.sensor1
  | 1 => v.sensor2
  | 2 => v.sensor3
  | 3 => v.sensor4
  | 4 => v.sensor5

/-- The five tests in front of the bits. -/
def Sensors.tripped (v : Sensors) (k : Fin 5) : Bool :=
  match k with
  | 0 => decide (v.sensor1 > senMax)
  | 1 => decide (v.sensor2 > senMax) || decide (v.sensor4 < senMin)
  | 2 => decide (v.sensor3 > senMax)
  | 3 => decide (v.sensor4 > senMax) || decide (v.sensor4 < senMin)
  | 4 => decide (v.sensor5 > senMax) || decide (v.sensor5 < senMin)

def bitOf (k : Fin 5) (byte : UInt8) : Bool := byte.toNat.testBit k

/-- The fourth byte of the first packet with the command `CMD_SENSOR`, in a
run of five-byte packets. -/
def irByte : List UInt8 → Option UInt8
  | _ :: _ :: command :: d1 :: _ :: rest => if command = cmdSensor then some d1 else irByte rest
  | _ => none

/-! ## The byte -/

theorem bitOf_or (b₀ b₁ b₂ b₃ b₄ : Bool) (k : Fin 5) :
    bitOf k ((if b₀ then 0x01 else 0) ||| (if b₁ then 0x02 else 0) ||| (if b₂ then 0x04 else 0) |||
      (if b₃ then 0x08 else 0) ||| (if b₄ then 0x10 else 0)) = [b₀, b₁, b₂, b₃, b₄][k] := by
  revert b₀ b₁ b₂ b₃ b₄ k
  decide

theorem irBits_testBit (v : Sensors) (k : Fin 5) : bitOf k (irBits v) = v.tripped k := by
  have hbits := bitOf_or (decide (v.sensor1 > senMax))
    (decide (v.sensor2 > senMax) || decide (v.sensor4 < senMin)) (decide (v.sensor3 > senMax))
    (decide (v.sensor4 > senMax) || decide (v.sensor4 < senMin))
    (decide (v.sensor5 > senMax) || decide (v.sensor5 < senMin)) k
  simp only [decide_eq_true_eq] at hbits
  rw [irBits, hbits]
  match k with
  | 0 | 1 | 2 | 3 | 4 => rfl

/-- Both commands are answered with the same byte. -/
theorem irByte_pushedBy (s : State) {command : UInt8}
    (h : command = cmdGetSensorData ∨ command = cmdSensor) :
    irByte (pushedBy (s.asked command)) = some (irBits s.sensors) := by
  rw [pushedBy_eq]
  rcases h with rfl | rfl
  · rfl
  · rfl

/-! ## The sensor behind a bit -/

/-- The bit depends on its own sensor only, in both answers, and the answers
are the same. -/
def OwnSensorOnly (s s' : State) (k : Fin 5) : Prop :=
  (irByte (pushedBy (s.asked cmdGetSensorData))).map (bitOf k) =
      (irByte (pushedBy (s'.asked cmdGetSensorData))).map (bitOf k) ∧
    (irByte (pushedBy (s.asked cmdSensor))).map (bitOf k) =
      (irByte (pushedBy (s'.asked cmdSensor))).map (bitOf k) ∧
    irByte (pushedBy (s.asked cmdGetSensorData)) = irByte (pushedBy (s.asked cmdSensor)) ∧
    irByte (pushedBy (s'.asked cmdGetSensorData)) = irByte (pushedBy (s'.asked cmdSensor))

theorem ownSensorOnly_iff_tripped (s s' : State) (k : Fin 5) :
    OwnSensorOnly s s' k ↔ s.sensors.tripped k = s'.sensors.tripped k := by
  have hget : ∀ s : State,
      irByte (pushedBy (s.asked cmdGetSensorData)) = some (irBits s.sensors) :=
    fun s => irByte_pushedBy s (Or.inl rfl)
  have hsensor : ∀ s : State, irByte (pushedBy (s.asked cmdSensor)) = some (irBits s.sensors) :=
    fun s => irByte_pushedBy s (Or.inr rfl)
  unfold OwnSensorOnly
  rw [hget, hget, hsensor, hsensor, Option.map_some, Option.map_some, Option.some.injEq,
    irBits_testBit, irBits_testBit]
  constructor
  · rintro ⟨hbit, -, -, -⟩
    exact hbit
  · intro hbit
    exact ⟨hbit, hbit, rfl, rfl⟩

/-- For readings that agree on the sensor of a bit.  The bit of the second
sensor is right as long as that sensor is above its upper threshold, or the
fourth one is on the same side of its lower threshold. -/
theorem ownSensorOnly_iff {s s' : State} {k : Fin 5}
    (h : s.sensors.reading k = s'.sensors.reading k) :
    OwnSensorOnly s s' k ↔
      k ≠ 1 ∨ s.sensors.sensor2 > senMax ∨
        (s.sensors.sensor4 < senMin ↔ s'.sensors.sensor4 < senMin) := by
  rw [ownSensorOnly_iff_tripped]
  match k with
  | 0 | 2 | 3 | 4 =>
    simp only [Sensors.reading] at h
    simp [Sensors.tripped, h]
  | 1 =>
    simp only [Sensors.reading] at h
    rw [ne_eq, eq_self, not_true_eq_false, false_or]
    simp only [Sensors.tripped, h]
    by_cases hhigh : s'.sensors.sensor2 > senMax
    · simp only [hhigh, decide_true, Bool.true_or, true_or]
    · rw [decide_eq_false hhigh, Bool.false_or, Bool.false_or, decide_eq_decide,
        or_iff_right hhigh]

/-- The initial state with five readings. -/
def sensing (v : Sensors) : State := { State.init with sensors := v }

theorem ownSensorOnly_iff_below :
    OwnSensorOnly (sensing ⟨0, 7, 0, 500, 500⟩) (sensing ⟨0, 7, 0, 600, 500⟩) 1 := by
  have hsame : (sensing ⟨0, 7, 0, 500, 500⟩).sensors.reading 1 =
      (sensing ⟨0, 7, 0, 600, 500⟩).sensors.reading 1 := rfl
  exact (ownSensorOnly_iff hsame).2 (Or.inr (Or.inr (by decide)))

/-- The second sensor reads the same, the fourth one goes below its lower
threshold, and bit 1 is set. -/
theorem fourth_sensor_sets_bit_one :
    ¬ ∀ (s s' : State) (k : Fin 5), s.sensors.reading k = s'.sensors.reading k →
      OwnSensorOnly s s' k := by
  intro hall
  have hbit := hall (sensing ⟨0, 7, 0, 500, 500⟩) (sensing ⟨0, 7, 0, 300, 500⟩) 1 rfl
  rw [ownSensorOnly_iff_tripped] at hbit
  exact absurd hbit (by decide)

end MinotaurRobot.Mcu
