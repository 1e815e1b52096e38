import MinotaurRobot.Mcu.Buffer
import MinotaurRobot.Mcu.Encoder

/-!
# The state of the microcontroller

The globals of `main.c`, the locals of `main` that live from one iteration of
the main loop to the next, and the motor output registers.  The interrupt
service routines are at the end.

Flags that only ever hold `0` or `1` are `Bool`.  `SENSOR_ENABLE` takes a
byte of the control packet, and the I2C counters are added to, so these stay
bytes.
-/

namespace MinotaurRobot.Mcu

/-! ## Constants of `minotaur.h` -/

def cmdMotors : UInt8 := 0x01
def cmdBattery : UInt8 := 0x02
def cmdEnableSensors : UInt8 := 0x03
def cmdAutonomousMode : UInt8 := 0x04
def cmdGetSensorData : UInt8 := 0xB0
def cmdSensor : UInt8 := 0xB1
def cmdRightEncoder : UInt8 := 0xB6
def cmdLeftEncoder : UInt8 := 0xB7

/-- `SEN_MIN`. -/
def senMin : Int := 400

/-- `SEN_MAX`. -/
def senMax : Int := 1020

/-- The first byte of every packet, in both directions. -/
def syncByte : UInt8 := 0xAA

/-! ## State -/

/-- `controlData`. -/
structure ControlData where
  bytesRecieved : UInt8
  sequence : UInt8
  command : UInt8
  data1 : UInt8
  data2 : UInt8
  deriving DecidableEq, Repr

/-- The characters `'S'`, `'F'` and `'B'` of the direction variables. -/
inductive Direction where
  | stop
  | forward
  | backward
  deriving DecidableEq, Repr

/-- `SENSOR1` to `SENSOR5`. -/
structure Sensors where
  sensor1 : Int
  sensor2 : Int
  sensor3 : Int
  sensor4 : Int
  sensor5 : Int
  deriving DecidableEq, Repr

/-- The speed and direction variables of one wheel. -/
structure Wheel where
  speed : UInt16
  direction : Direction
  deriving DecidableEq, Repr

structure State where
  sensorsReady : Bool
  sensorEnable : UInt8
  sensorTripped : Bool
  readyToSend : Bool
  readyToRec : Bool
  print : Bool
  getBatt : Bool
  battReady : Bool
  timeout : Bool
  i2cStart : UInt8
  i2cRestart : UInt8
  i2cStop : UInt8
  i2cSendByte : UInt8
  i2cRecvByte : UInt8
  i2cIsr : Bool
  i2cError : Bool
  sensors : Sensors
  txDataBuffer : Buffer
  rxDataBuffer : Buffer
  controlpacket : ControlData
  encoders : Encoders
  /-- `left_speed`, `left_direction` and their user, right and user right
  counterparts. -/
  left : Wheel
  right : Wheel
  userLeft : Wheel
  userRight : Wheel
  batteryPercentage : UInt8
  oc2rs : UInt16
  oc3rs : UInt16
  late : UInt16

def Wheel.stopped : Wheel := ⟨0, .stop⟩

/-- The state at the top of the main loop, after start-up. -/
def State.init : State where
  sensorsReady := false
  sensorEnable := 0
  sensorTripped := false
  readyToSend := true
  readyToRec := false
  print := false
  getBatt := false
  battReady := false
  timeout := false
  i2cStart := 0
  i2cRestart := 0
  i2cStop := 0
  i2cSendByte := 0
  i2cRecvByte := 0
  i2cIsr := false
  i2cError := false
  sensors := ⟨0, 0, 0, 0, 0⟩
  txDataBuffer := Buffer.init
  rxDataBuffer := Buffer.init
  controlpacket := ⟨0, 0, 0, 0, 0⟩
  encoders := Encoders.init
  left := Wheel.stopped
  right := Wheel.stopped
  userLeft := Wheel.stopped
  userRight := Wheel.stopped
  batteryPercentage := 100
  oc2rs := 0
  oc3rs := 0
  late := 0

/-! ## Interrupt service routines -/

/-- The interrupts of `main.c`. -/
inductive Interrupt where
  | mi2c1
  | adc1
  | u1rx (perr ferr : Bool)
  | u1tx
  | t4
  | t3 (pins : PortD)
  deriving DecidableEq, Repr

/-- `_MI2C1Interrupt`, `_ADC1Interrupt`, `_U1RXInterrupt`, `_U1TXInterrupt`,
`_T4Interrupt` and `_T3Interrupt`. -/
def State.interrupt (s : State) : Interrupt → State
  | .mi2c1 => { s with i2cIsr := true }
  | .adc1 => { s with sensorsReady := true }
  | .u1rx perr ferr => if perr || ferr then s else { s with readyToRec := true }
  | .u1tx => { s with readyToSend := true }
  | .t4 => { s with print := true, timeout := true, getBatt := true }
  | .t3 pins => { s with encoders := t3Interrupt s.encoders pins }

/-- No interrupt touches the byte buffers or the control packet. -/
theorem interrupt_frame (s : State) (i : Interrupt) :
    (s.interrupt i).txDataBuffer = s.txDataBuffer ∧
      (s.interrupt i).rxDataBuffer = s.rxDataBuffer ∧
      (s.interrupt i).controlpacket = s.controlpacket := by
  cases i with
  | u1rx perr ferr =>
    rw [State.interrupt]
    split <;> exact ⟨rfl, rfl, rfl⟩
  | mi2c1 | adc1 | u1tx | t4 | t3 => exact ⟨rfl, rfl, rfl⟩

end MinotaurRobot.Mcu
