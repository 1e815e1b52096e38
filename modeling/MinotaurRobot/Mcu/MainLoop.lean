import MinotaurRobot.Mcu.State

/-!
# The main loop of the microcontroller

One definition for each section of the `while(1)` loop of `main.c`, in the
order of the source, and `iterate` for a whole iteration.

`printString` waits while the transmit buffer is full.  Only the main loop
takes bytes out of that buffer, so the wait never ends; `printString` and
`iterate` are `none` there.  The bus calls of `i2c.c` return at once or as
soon as the hardware has shifted a byte out, and the model takes them as
actions on the bus.

An iteration also returns a record of what it did.  `sent` and `bus` are the
writes to `U1TXREG` and to the I2C module.  The other fields are the bytes
and packets that went through the state, for the theorems about runs.
-/

namespace MinotaurRobot.Mcu

/-- What the hardware registers read during one iteration: `ADC1BUF0` to
`ADC1BUF4`, `U1RXREG` and `I2C1RCV`. -/
structure Hw where
  adc1buf0 : Int
  adc1buf1 : Int
  adc1buf2 : Int
  adc1buf3 : Int
  adc1buf4 : Int
  u1rxreg : UInt8
  i2c1rcv : UInt8
  deriving DecidableEq, Repr

/-! ## ATD -/

def readSensors (hw : Hw) (s : State) : State :=
  if s.sensorsReady then
    { s with
        sensors :=
          { sensor4 := hw.adc1buf0
            sensor3 := hw.adc1buf1
            sensor2 := hw.adc1buf2
            sensor1 := hw.adc1buf3
            sensor5 := hw.adc1buf4 }
        sensorsReady := false }
  else s

/-! ## Debug printing -/

/-- `printString`.  `none` when it waits on a full buffer, which nothing
empties. -/
def printString (tx : Buffer) : List UInt8 → Option Buffer
  | [] => some tx
  | c :: string =>
    if buffStatus tx = .full then none else printString (buffPush tx c).1 string

/-- The digit loop of `printInt`.  Each round puts one digit in front. -/
def printIntLoop : Nat → Nat → List UInt8 → List UInt8
  | 0, _, string => string
  | rounds + 1, num, string =>
    if num = 0 then string
    else printIntLoop rounds (num / 10) (UInt8.ofNat (48 + num % 10) :: string)

/-- The string that `printInt` prints.  A 16-bit number has at most five
digits. -/
def printIntString (num : UInt16) : List UInt8 :=
  if num = 0 then [48] else printIntLoop 5 num.toNat []

/-- One line of the debug text: the label, `": "`, the reading, `"\n\r"`. -/
def printLine (label : UInt8) (sensor : Int) : List UInt8 :=
  [label, 58, 32] ++ printIntString (UInt16.ofInt sensor) ++ [10, 13]

/-- The text that one pass of the debug section prints. -/
def debugText (v : Sensors) : List UInt8 :=
  printLine 49 v.sensor1 ++ printLine 50 v.sensor2 ++ printLine 51 v.sensor3 ++
    printLine 52 v.sensor4 ++ printLine 53 v.sensor5

def debugPrint (s : State) : Option State :=
  if s.print then
    (printString s.txDataBuffer (debugText s.sensors)).map fun tx =>
      { s with txDataBuffer := tx, print := false }
  else some s

/-! ## UART -/

/-- Hand the next byte of the transmit buffer to `U1TXREG`. -/
def uartSend (s : State) : State × Option UInt8 :=
  if s.readyToSend && buffStatus s.txDataBuffer != .empty then
    let (c, tx) := buffPop s.txDataBuffer
    ({ s with txDataBuffer := tx, readyToSend := false }, some c)
  else (s, none)

/-- Store the byte of `U1RXREG`.  Returns the byte that was stored. -/
def uartReceive (hw : Hw) (s : State) : State × Option UInt8 :=
  if s.readyToRec && buffStatus s.rxDataBuffer != .full then
    ({ s with
        rxDataBuffer := (buffPush s.rxDataBuffer hw.u1rxreg).1
        readyToRec := false }, some hw.u1rxreg)
  else (s, none)

/-- The assembly switch on `bytesRecieved`. -/
def assemblyStep (p : ControlData) (tempC : UInt8) : ControlData :=
  if p.bytesRecieved = 0 then
    if tempC = syncByte then { p with bytesRecieved := 1 } else p
  else if p.bytesRecieved = 1 then
    { p with sequence := tempC, bytesRecieved := p.bytesRecieved + 1 }
  else if p.bytesRecieved = 2 then
    { p with command := tempC, bytesRecieved := p.bytesRecieved + 1 }
  else if p.bytesRecieved = 3 then
    { p with data1 := tempC, bytesRecieved := p.bytesRecieved + 1 }
  else if p.bytesRecieved = 4 then
    { p with data2 := tempC, bytesRecieved := p.bytesRecieved + 1 }
  else p

/-- Pop a received byte, echo it and add it to the control packet.  Returns
the byte that was popped. -/
def assemble (s : State) : State × Option UInt8 :=
  if buffStatus s.rxDataBuffer != .empty then
    let (tempC, rx) := buffPop s.rxDataBuffer
    ({ s with
        rxDataBuffer := rx
        txDataBuffer := (buffPush s.txDataBuffer tempC).1
        controlpacket := assemblyStep s.controlpacket tempC }, some tempC)
  else (s, none)

/-! ## I2C -/

/-- What the main loop does on the I2C bus. -/
inductive BusAction where
  | start
  | restart
  | write (data : UInt8)
  | readNack
  deriving DecidableEq, Repr

def i2cRequest (s : State) : State × List BusAction :=
  if s.getBatt then ({ s with i2cStart := 1 }, [.start]) else (s, [])

/-- The chain of `else if` on the bus interrupt flag, which stays set. -/
def i2cService (hw : Hw) (s : State) : State × List BusAction :=
  if s.i2cIsr then
    if s.i2cStart = 1 then
      ({ s with i2cStart := 0, i2cSendByte := s.i2cSendByte + 1 }, [.write 0xAA])
    else if s.i2cSendByte = 1 then
      ({ s with i2cSendByte := s.i2cSendByte + 1 }, [.write 0x02])
    else if s.i2cSendByte = 2 then
      ({ s with i2cSendByte := s.i2cSendByte + 1 }, [.write 0x03])
    else if s.i2cSendByte = 3 then
      ({ s with i2cSendByte := 0, i2cRestart := s.i2cRestart + 1 }, [.restart])
    else if s.i2cRestart = 1 then
      let sendByte := s.i2cSendByte + 1
      ({ s with
          i2cRestart := 0
          i2cSendByte := if sendByte = 1 then 4 else sendByte }, [.write 0xAB])
    else if s.i2cSendByte = 4 then
      ({ s with
          i2cSendByte := 0
          batteryPercentage := hw.i2c1rcv
          i2cRecvByte := 1
          battReady := true
          getBatt := false }, [.readNack])
    else if s.i2cRecvByte = 1 then
      ({ s with i2cRecvByte := 0 }, [])
    else if s.i2cStop = 1 then
      ({ s with i2cStop := 0 }, [])
    else
      ({ s with i2cError := true }, [])
  else (s, [])

/-! ## Process command -/

/-- `controlpacket.bytesRecieved = 0`. -/
def consume (s : State) : State :=
  { s with controlpacket := { s.controlpacket with bytesRecieved := 0 } }

/-- The five bytes of a response to the packet being handled. -/
def response (s : State) (command d1 d2 : UInt8) : List UInt8 :=
  [syncByte, s.controlpacket.sequence, command, d1, d2]

/-- Five pushes without a test. -/
def respond (s : State) (command d1 d2 : UInt8) : State :=
  { s with txDataBuffer := pushAll s.txDataBuffer (response s command d1 d2) }

/-- Five pushes behind one test that the buffer is not full. -/
def respondIfRoom (s : State) (command d1 d2 : UInt8) : State :=
  if buffStatus s.txDataBuffer != .full then respond s command d1 d2 else s

/-- `tempBuffC` of the two IR responses: one bit for each sensor. -/
def irBits (v : Sensors) : UInt8 :=
  (if v.sensor1 > senMax then 0x01 else 0) |||
    (if v.sensor2 > senMax || v.sensor4 < senMin then 0x02 else 0) |||
    (if v.sensor3 > senMax then 0x04 else 0) |||
    (if v.sensor4 > senMax || v.sensor4 < senMin then 0x08 else 0) |||
    (if v.sensor5 > senMax || v.sensor5 < senMin then 0x10 else 0)

/-- `(char)(TICKS >> 8)`. -/
def ticksHigh (ticks : Int) : UInt8 := UInt8.ofInt (ticks >>> (8 : Nat))

/-- `(char)TICKS`. -/
def ticksLow (ticks : Int) : UInt8 := UInt8.ofInt ticks

/-- The answer to `CMD_GET_SENSOR_DATA`: IR bits, left encoder, right
encoder. -/
def getSensorData (s : State) : State :=
  let s := respondIfRoom s cmdSensor (irBits s.sensors) 0x00
  let s := respondIfRoom s cmdLeftEncoder
    (ticksHigh s.encoders.left.ticks) (ticksLow s.encoders.left.ticks)
  let s := respondIfRoom s cmdRightEncoder
    (ticksHigh s.encoders.right.ticks) (ticksLow s.encoders.right.ticks)
  consume s

def processCmd (s : State) : State :=
  if s.controlpacket.bytesRecieved = 5 then
    let s := if s.controlpacket.command = cmdGetSensorData then getSensorData s else s
    let s :=
      if s.controlpacket.command = cmdRightEncoder then
        consume (respond s cmdRightEncoder
          (ticksHigh s.encoders.right.ticks) (ticksLow s.encoders.right.ticks))
      else s
    let s :=
      if s.controlpacket.command = cmdLeftEncoder then
        consume (respond s cmdLeftEncoder
          (ticksHigh s.encoders.left.ticks) (ticksLow s.encoders.left.ticks))
      else s
    let s :=
      if s.controlpacket.command = cmdBattery then
        consume (respond s cmdBattery s.batteryPercentage 0x00)
      else s
    if s.controlpacket.command = cmdSensor then
      respond s cmdSensor (irBits s.sensors) 0x00
    else s
  else s

/-! ## Motors -/

/-- The direction and speed that one data byte of a motor command selects. -/
def userWheel (tempC : UInt8) : Wheel where
  direction :=
    if tempC &&& 0x80 = 0x80 then .backward
    else if tempC ≠ 0 then .forward
    else .stop
  speed := (tempC &&& 0x7F).toUInt16 <<< 1

def motorCmd (s : State) : State :=
  if s.controlpacket.bytesRecieved = 5 ∧ s.controlpacket.command = cmdMotors then
    let s := consume s
    let s := { s with userLeft := userWheel s.controlpacket.data1 }
    let s := { s with userRight := userWheel s.controlpacket.data2 }
    respondIfRoom s cmdMotors 0 0
  else s

def enableSensors (s : State) : State :=
  if s.controlpacket.bytesRecieved = 5 ∧ s.controlpacket.command = cmdEnableSensors then
    { s with sensorEnable := s.controlpacket.data1 }
  else s

def autonomousMode (s : State) : State :=
  if s.controlpacket.bytesRecieved = 5 ∧ s.controlpacket.command = cmdAutonomousMode then
    let s := consume s
    if s.controlpacket.data1 = 1 then
      { s with userRight := ⟨0xFF, .forward⟩, userLeft := ⟨0xFF, .forward⟩, sensorEnable := 1 }
    else
      { s with userRight := ⟨0x00, .stop⟩, userLeft := ⟨0x00, .stop⟩, sensorEnable := 0 }
  else s

/-- Override the wheels when a sensor has tripped. -/
def evadeIf (tripped : Bool) (left right : Wheel) (s : State) : State :=
  if tripped then { s with left := left, right := right, sensorTripped := true } else s

/-- `if a .. else if b .. else if c ..` on the front side sensors. -/
def evadeSides (on : Bool) (v : Sensors) (s : State) : State :=
  if on && (v.sensor1 > senMax && v.sensor3 > senMax) then
    evadeIf true ⟨0xFF, .backward⟩ ⟨0x10, .backward⟩ s
  else if on && v.sensor1 > senMax then
    evadeIf true ⟨0xFF, .backward⟩ ⟨0xFF, .forward⟩ s
  else
    evadeIf (on && v.sensor3 > senMax) ⟨0xFF, .forward⟩ ⟨0xFF, .backward⟩ s

/-- Without a tripped sensor the wheels follow the user. -/
def followUser (s : State) : State :=
  if s.sensorTripped then s else { s with right := s.userRight, left := s.userLeft }

def avoidObstacles (s : State) : State :=
  let on := s.sensorEnable != 0
  let v := s.sensors
  let s := { s with sensorTripped := false }
  let s := evadeIf (on && v.sensor2 > senMax) ⟨0xFF, .forward⟩ ⟨0xFF, .backward⟩ s
  let s := evadeIf (on && v.sensor4 > senMax) ⟨0xFF, .forward⟩ ⟨0xFF, .forward⟩ s
  let s := evadeIf (on && v.sensor5 > senMax) ⟨0xFF, .forward⟩ ⟨0xFF, .forward⟩ s
  followUser (evadeSides on v s)

def driveMotors (s : State) : State :=
  let late : UInt16 := 0
  let late :=
    match s.left.direction with
    | .forward => late ||| 0x02
    | .backward => late ||| 0x04
    | .stop => late &&& ~~~0x06
  let late :=
    match s.right.direction with
    | .forward => late ||| 0x08
    | .backward => late ||| 0x10
    | .stop => late &&& ~~~0x18
  { s with
      oc3rs := (s.right.speed <<< 1) &&& 0x1FF
      oc2rs := (s.left.speed <<< 1) &&& 0x1FF
      late := late }

/-- The reset at the end of the iteration. -/
def endReset (s : State) : State :=
  if s.controlpacket.bytesRecieved = 5 then consume s else s

/-! ## One iteration -/

/-- The sections behind the responses. -/
def afterProcess (s : State) : State :=
  endReset (driveMotors (avoidObstacles (autonomousMode (enableSensors (motorCmd s)))))

/-- The sections that handle a complete packet and drive the motors. -/
def handlePacket (s : State) : State := afterProcess (processCmd s)

/-- What one iteration did. -/
structure Trace where
  /-- The debug text. -/
  printed : List UInt8
  /-- The byte written to `U1TXREG`. -/
  sent : Option UInt8
  /-- The byte stored in the receive buffer. -/
  received : Option UInt8
  /-- `bytesRecieved` when the receive buffer was read. -/
  bytesRecieved : UInt8
  /-- The byte popped from the receive buffer and echoed. -/
  popped : Option UInt8
  /-- The state that the handlers of a complete packet saw. -/
  handled : Option State
  /-- `bytesRecieved` at the end of the iteration. -/
  bytesLeft : UInt8
  bus : List BusAction
  /-- The transmit buffer was full behind the debug text or at the end. -/
  txFull : Bool

/-- One iteration of the main loop. -/
def iterate (hw : Hw) (s : State) : Option (State × Trace) := do
  let s := readSensors hw s
  let printed := if s.print then debugText s.sensors else []
  let s ← debugPrint s
  let fullPrinted := buffStatus s.txDataBuffer == .full
  let (s, sent) := uartSend s
  let (s, received) := uartReceive hw s
  let bytesRecieved := s.controlpacket.bytesRecieved
  let (s, popped) := assemble s
  let (s, bus) := i2cRequest s
  let (s, bus') := i2cService hw s
  let handled := if s.controlpacket.bytesRecieved = 5 then some s else none
  let s := handlePacket s
  let fullEnd := buffStatus s.txDataBuffer == .full
  return (s,
    { printed := printed
      sent := sent
      received := received
      bytesRecieved := bytesRecieved
      popped := popped
      handled := handled
      bytesLeft := s.controlpacket.bytesRecieved
      bus := bus ++ bus'
      txFull := fullPrinted || fullEnd })

end MinotaurRobot.Mcu
