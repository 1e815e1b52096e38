import MinotaurRobot.Host.Packet
import MinotaurRobot.Host.SerialRing

/-!
# `Minotaur::recv`

The receive side of the host: one call of `recv` reads from the serial port,
decodes packets from the ring buffer into `nextState`, and makes `nextState`
the current state when the sensor values are complete and the odometry
accepts them.

The position is computed in `float`.  The model takes the type and the two
float computations as parameters (`Odometry`), with the integer tick
differences as arguments, so its theorems hold for any arithmetic.

The two decode loops end after at most as many rounds as bytes are unread,
and the model counts these down.  `MinotaurRobot.Host.Decode` proves that
they are enough.
-/

namespace MinotaurRobot.Host

variable {F : Type}

/-! ## State -/

/-- `MinotaurState`. -/
structure MinotaurState (F : Type) where
  timestamp : UInt32
  x : F
  y : F
  orient : F
  leftEncoder : UInt16
  rightEncoder : UInt16
  irBank : UInt8
  battery : UInt8
  validTs : Bool
  validPos : Bool
  validLeftEnc : Bool
  validRightEnc : Bool
  validIrBank : Bool
  validBattery : Bool

/-- The float computations of `recv`. -/
structure Odometry (F : Type) where
  zero : F
  /-- The sanity check on the two tick differences and the time between the
  two states. -/
  sane : Int → Int → UInt32 → Bool
  /-- The position behind two tick differences, as `x`, `y` and `orient`. -/
  move : Int → Int → F × F × F → F × F × F

/-- The odometry of a robot that stands still. -/
def restOdometry : Odometry Int where
  zero := 0
  sane := fun leftDiff rightDiff elapsed => leftDiff == 0 && rightDiff == 0 && elapsed != 0
  move := fun _ _ position => position

/-- The constructor of `MinotaurState`. -/
def MinotaurState.fresh (odometry : Odometry F) : MinotaurState F where
  timestamp := 0
  x := odometry.zero
  y := odometry.zero
  orient := odometry.zero
  leftEncoder := 0
  rightEncoder := 0
  irBank := 0
  battery := 0
  validTs := false
  validPos := false
  validLeftEnc := false
  validRightEnc := false
  validIrBank := false
  validBattery := false

/-- `sensorsComplete`. -/
def MinotaurState.sensorsComplete (st : MinotaurState F) : Bool :=
  st.validLeftEnc && st.validRightEnc && st.validIrBank

/-- The members of `Minotaur` that `recv` reads and writes. -/
structure Minotaur (F : Type) where
  ring : SerialRing
  /-- Which of `minos_command_locks` are held. -/
  minosCommandLocks : UInt8 → Bool
  minosIncoming : UInt8 → MinosPacket
  currentState : MinotaurState F
  nextState : MinotaurState F
  previousState : MinotaurState F

/-- The constructor of `Minotaur`. -/
def Minotaur.init (odometry : Odometry F) : Minotaur F where
  ring := SerialRing.init
  minosCommandLocks := fun _ => false
  minosIncoming := fun _ => ⟨0, 0, 0, 0, 0⟩
  currentState := MinotaurState.fresh odometry
  nextState := MinotaurState.fresh odometry
  previousState := MinotaurState.fresh odometry

/-! ## Packets -/

/-- `packetize`.  `none` is the exception for too few bytes. -/
def packetize (m : Minotaur F) : Option (MinosPacket × Minotaur F) :=
  if m.ring.unread < 5 then none
  else
    let cell := fun i => m.ring.data ((m.ring.start + i) % bufferSize)
    let ret : MinosPacket :=
      { sync := cell 0, seq := cell 1, command := cell 2, udata8Fst := cell 3, udata8Snd := cell 4 }
    some (ret,
      { m with
          ring := m.ring.advance 5
          minosIncoming := fun seq => if seq = ret.seq then ret else m.minosIncoming seq
          minosCommandLocks := fun seq =>
            if seq = ret.seq then false else m.minosCommandLocks seq })

/-- The first switch: a packet with data starts the clock of `nextState`. -/
def stampPacket (now : UInt32) (st : MinotaurState F) (p : MinosPacket) : MinotaurState F :=
  if p.command ∈ [0x02, 0x03, 0xB1, 0xB6, 0xB7] then
    if st.validTs then st else { st with timestamp := now, validTs := true }
  else st

/-- The second switch. -/
def storePacket (st : MinotaurState F) (p : MinosPacket) : MinotaurState F :=
  if p.command = 0x02 then { st with battery := p.udata8Fst, validBattery := true }
  else if p.command = 0xB1 then { st with irBank := p.udata8Fst, validIrBank := true }
  else if p.command = 0xB6 then { st with rightEncoder := p.udata16, validRightEnc := true }
  else if p.command = 0xB7 then { st with leftEncoder := p.udata16, validLeftEnc := true }
  else st

/-- What `recv` does with a packet, at time `now`. -/
def applyPacket (now : UInt32) (st : MinotaurState F) (p : MinosPacket) : MinotaurState F :=
  storePacket (stampPacket now st p) p

/-- The inner loop: drop bytes up to a sync byte. -/
def dropOutOfSync : Nat → SerialRing → SerialRing
  | 0, b => b
  | rounds + 1, b =>
    if b.data b.start != 0xAA && b.start != b.stop then dropOutOfSync rounds (b.advance 1)
    else b

/-- The decode loop.  `clock i` is the result of `getMicroseconds` when the
packet number `i` of this call is processed.  Returns the packets served. -/
def decodeLoop (clock : Nat → UInt32) :
    Nat → Nat → Minotaur F → Option (Minotaur F × List MinosPacket)
  | 0, _, m => some (m, [])
  | rounds + 1, i, m =>
    if m.ring.unread > 5 then
      let m := { m with ring := dropOutOfSync m.ring.unread m.ring }
      if m.ring.unread > 5 then do
        let (packet, m) ← packetize m
        let m := { m with nextState := applyPacket (clock i) m.nextState packet }
        let (m, packets) ← decodeLoop clock rounds (i + 1) m
        return (m, packet :: packets)
      else decodeLoop clock rounds i m
    else some (m, [])

/-! ## Position and commit -/

/-- A tick difference, taken across the wrap of the 16-bit counter. -/
def unwrap (diff : Int) : Int :=
  if diff > 32768 then diff - 65536
  else if diff < -32768 then diff + 65536
  else diff

/-- `left_diff` or `right_diff`. -/
def tickDiff (current : MinotaurState F) (next previous : UInt16) : Int :=
  unwrap (if current.validTs then (next.toNat : Int) - previous.toNat else 0)

/-- The position of `nextState`. -/
def updatePosition (odometry : Odometry F) (current next : MinotaurState F) :
    MinotaurState F :=
  let leftDiff := tickDiff current next.leftEncoder current.leftEncoder
  let rightDiff := tickDiff current next.rightEncoder current.rightEncoder
  if odometry.sane leftDiff rightDiff (next.timestamp - current.timestamp) ||
      !current.validPos then
    let (x, y, orient) := odometry.move leftDiff rightDiff (current.x, current.y, current.orient)
    { next with x := x, y := y, orient := orient, validPos := true }
  else { next with validPos := false }

/-- The end of `recv`.  Returns the state that was committed. -/
def commit (odometry : Odometry F) (m : Minotaur F) : Minotaur F × Option (MinotaurState F) :=
  if m.nextState.sensorsComplete then
    let next :=
      if (m.nextState.validLeftEnc && m.nextState.validRightEnc) || !m.currentState.validTs then
        updatePosition odometry m.currentState m.nextState
      else m.nextState
    if next.validPos then
      ({ m with
          previousState := m.currentState
          currentState := next
          nextState := MinotaurState.fresh odometry }, some next)
    else ({ m with nextState := next }, none)
  else (m, none)

/-- What one call of `recv` did. -/
structure RecvResult (F : Type) where
  minotaur : Minotaur F
  served : List MinosPacket
  committed : Option (MinotaurState F)
  /-- The result of `recv`. -/
  result : Bool

/-- `Minotaur::recv`.  `none` when it throws. -/
def recv (odometry : Odometry F) (clock : Nat → UInt32) (call : ReadCall) (m : Minotaur F) :
    Option (RecvResult F) :=
  let (ring, continues) := m.ring.takeIn call
  let m := { m with ring := ring }
  if continues then do
    let (m, packets) ← decodeLoop clock m.ring.unread 0 m
    let (m, committed) := commit odometry m
    return ⟨m, packets, committed, packets.length != 0⟩
  else some ⟨m, [], none, false⟩

end MinotaurRobot.Host
