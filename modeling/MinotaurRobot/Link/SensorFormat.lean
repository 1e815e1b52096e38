import MinotaurRobot.Host.Decode
import MinotaurRobot.Mcu.Responses

/-!
# The data bytes of the sensor responses

The microcontroller pushes five bytes for each response, and the host takes
five bytes off its ring and overlays the last two with a union.  `Stores` is
the decoding of one response, from the ring into `nextState`.

The one-byte values arrive as they were sent.  An encoder count is sent with
its high byte first and read with its low byte first, so `udata16_eq_iff`
restricts the counts that arrive unchanged to those with two equal bytes.
-/

namespace MinotaurRobot.Link

open MinotaurRobot.Host MinotaurRobot.Mcu

/-! ## The two byte orders -/

/-- A tick count modulo `2 ^ 16`, by the two bytes that are sent. -/
theorem toNat_ofInt_ticks (ticks : Int) :
    (UInt16.ofInt ticks).toNat = (ticksLow ticks).toNat + 256 * (ticksHigh ticks).toNat := by
  rw [ticksLow, ticksHigh, Int.shiftRight_eq_div_pow]
  simp only [UInt16.ofInt, UInt8.ofInt, UInt16.toNat_ofNat', UInt8.toNat_ofNat']
  omega

/-- An encoder packet reads as the tick count, exactly if the two bytes of the
count are equal. -/
theorem udata16_eq_iff (sync seq command : UInt8) (ticks : Int) :
    (MinosPacket.mk sync seq command (ticksHigh ticks) (ticksLow ticks)).udata16 =
        UInt16.ofInt ticks ↔
      ticksHigh ticks = ticksLow ticks := by
  have hhigh := (ticksHigh ticks).toNat_lt
  have hlow := (ticksLow ticks).toNat_lt
  rw [← UInt16.toNat_inj, ← UInt8.toNat_inj, toNat_ofInt_ticks, MinosPacket.udata16,
    UInt16.toNat_ofNat', Nat.mod_eq_of_lt (by dsimp only; omega)]
  dsimp only
  omega

/-! ## Decoding one response -/

/-- The bytes that the main loop pushes for a command. -/
def answer (s : State) (command : UInt8) : List UInt8 := pushedBy (s.asked command)

/-- A host with some bytes in front of its ring decodes them to a packet with
sequence number `seq`, and the switch of `recv` leaves a state with
`stored`. -/
def Stores (bytes : List UInt8) (seq : UInt8) (stored : Readings → Prop) : Prop :=
  ∀ (F : Type) (m : Minotaur F) (now : UInt32), bytes <+: m.ring.contents →
    ∃ p m', packetize m = some (p, m') ∧ p.seq = seq ∧
      stored (applyPacket now m'.nextState p).readings

/-- A host with nothing but one packet in its ring. -/
def holding {F : Type} (p : MinosPacket) (st : MinotaurState F) : Minotaur F where
  ring :=
    { data := fun i => p.bytes[i]?.getD 0
      start := 0
      stop := 5
      start_lt := SerialRing.init.start_lt
      stop_lt := by decide }
  minosCommandLocks := fun _ => false
  minosIncoming := fun _ => ⟨0, 0, 0, 0, 0⟩
  currentState := st
  nextState := st
  previousState := st

theorem holding_contents {F : Type} (p : MinosPacket) (st : MinotaurState F) :
    (holding p st).ring.contents = p.bytes := by
  have hunread : (holding p st).ring.unread = 5 := (by decide : Lib.Ring.fill bufferSize 0 5 = 5)
  rw [SerialRing.contents, hunread]
  rfl

/-- `packetize` takes a packet off the front of the ring. -/
theorem packetize_next {F : Type} {p : MinosPacket} {m : Minotaur F}
    (h : p.bytes <+: m.ring.contents) :
    ∃ m', packetize m = some (p, m') ∧ m'.nextState = m.nextState := by
  have hlen := h.length_le
  rw [p.bytes_length, Host.contents_length] at hlen
  obtain ⟨q, m', hpacket, hbytes, -, hnext, -⟩ := packetize_spec hlen
  rw [List.prefix_iff_eq_take, p.bytes_length] at h
  obtain rfl : p = q := MinosPacket.bytes_injective (h.trans hbytes.symm)
  exact ⟨m', hpacket, hnext⟩

theorem stores_iff {p : MinosPacket} {seq : UInt8} {stored : Readings → Prop} :
    Stores p.bytes seq stored ↔ ∀ (F : Type) (now : UInt32) (st : MinotaurState F),
      p.seq = seq ∧ stored (applyPacket now st p).readings := by
  constructor
  · intro h F now st
    have hstart : p.bytes <+: (holding p st).ring.contents := by
      rw [holding_contents]
    obtain ⟨q, m', hpacket, hseq, hstored⟩ := h F (holding p st) now hstart
    obtain ⟨m'', hpacket', hnext⟩ := packetize_next hstart
    rw [hpacket, Option.some.injEq, Prod.mk.injEq] at hpacket'
    obtain ⟨rfl, rfl⟩ := hpacket'
    rw [hnext] at hstored
    exact ⟨hseq, hstored⟩
  · intro h F m now hstart
    obtain ⟨m', hpacket, -⟩ := packetize_next hstart
    exact ⟨p, m', hpacket, h F now m'.nextState⟩

/-! ## The four responses -/

/-- The value of a packet in the readings of the host. -/
theorem applyPacket_readings {F : Type} (now : UInt32) (st : MinotaurState F) (p : MinosPacket) :
    (p.command = 0xB7 → (applyPacket now st p).readings.leftEncoder = p.udata16) ∧
      (p.command = 0xB6 → (applyPacket now st p).readings.rightEncoder = p.udata16) ∧
      (p.command = 0xB1 → (applyPacket now st p).readings.irBank = p.udata8Fst) ∧
      (p.command = 0x02 → (applyPacket now st p).readings.battery = p.udata8Fst) := by
  refine ⟨?_, ?_, ?_, ?_⟩ <;> intro h <;>
    simp [applyPacket, storePacket, h, MinotaurState.readings]

/-- The answers to the four requests, each as one packet. -/
def answerPacket (s : State) (command d1 d2 : UInt8) : MinosPacket :=
  ⟨syncByte, s.controlpacket.sequence, command, d1, d2⟩

theorem answer_eq (s : State) :
    answer s cmdLeftEncoder = (answerPacket s cmdLeftEncoder
        (ticksHigh s.encoders.left.ticks) (ticksLow s.encoders.left.ticks)).bytes ∧
      answer s cmdRightEncoder = (answerPacket s cmdRightEncoder
        (ticksHigh s.encoders.right.ticks) (ticksLow s.encoders.right.ticks)).bytes ∧
      answer s cmdSensor = (answerPacket s cmdSensor (irBits s.sensors) 0).bytes ∧
      answer s cmdBattery = (answerPacket s cmdBattery s.batteryPercentage 0).bytes := by
  simp only [answer, pushedBy_eq]
  exact ⟨rfl, rfl, rfl, rfl⟩

/-- Decoding the four responses stores the values that the main loop encoded:
the two tick counts modulo `2 ^ 16`, the IR bits and the battery level, with
the sequence number of the request. -/
def RoundTrip (s : State) : Prop :=
  let seq := s.controlpacket.sequence
  Stores (answer s cmdLeftEncoder) seq
      (fun r => r.leftEncoder = UInt16.ofInt s.encoders.left.ticks) ∧
    Stores (answer s cmdRightEncoder) seq
      (fun r => r.rightEncoder = UInt16.ofInt s.encoders.right.ticks) ∧
    Stores (answer s cmdSensor) seq (fun r => r.irBank = irBits s.sensors) ∧
    Stores (answer s cmdBattery) seq (fun r => r.battery = s.batteryPercentage)

/-- The round trip succeeds, exactly if each tick count has two equal bytes. -/
theorem roundTrip_iff (s : State) :
    RoundTrip s ↔
      ticksHigh s.encoders.left.ticks = ticksLow s.encoders.left.ticks ∧
        ticksHigh s.encoders.right.ticks = ticksLow s.encoders.right.ticks := by
  obtain ⟨hleft, hright, hir, hbattery⟩ := answer_eq s
  rw [RoundTrip, hleft, hright, hir, hbattery]
  simp only [stores_iff]
  have happly := fun F now (st : MinotaurState F) (p : MinosPacket) => applyPacket_readings now st p
  constructor
  · rintro ⟨hl, hr, -, -⟩
    have hl := (hl Int 0 (MinotaurState.fresh restOdometry)).2
    have hr := (hr Int 0 (MinotaurState.fresh restOdometry)).2
    rw [(happly _ _ _ _).1 rfl] at hl
    rw [(happly _ _ _ _).2.1 rfl] at hr
    exact ⟨(udata16_eq_iff _ _ _ _).1 hl, (udata16_eq_iff _ _ _ _).1 hr⟩
  · rintro ⟨hl, hr⟩
    refine ⟨fun F now st => ⟨rfl, ?_⟩, fun F now st => ⟨rfl, ?_⟩, fun F now st => ⟨rfl, ?_⟩,
      fun F now st => ⟨rfl, ?_⟩⟩
    · rw [(happly _ _ _ _).1 rfl]
      exact (udata16_eq_iff _ _ _ _).2 hl
    · rw [(happly _ _ _ _).2.1 rfl]
      exact (udata16_eq_iff _ _ _ _).2 hr
    · exact (happly _ _ _ _).2.2.1 rfl
    · exact (happly _ _ _ _).2.2.2 rfl

/-- One tick on the left wheel. -/
def oneTick : State :=
  { State.init with encoders := { Encoders.init with left := { Encoders.init.left with ticks := 1 } } }

/-- One tick is stored as 256 ticks. -/
theorem oneTick_stored :
    Stores (answer oneTick cmdLeftEncoder) 0 (fun r => r.leftEncoder = 256) ∧
      ¬RoundTrip oneTick := by
  have hanswer : answer oneTick cmdLeftEncoder =
      (answerPacket oneTick cmdLeftEncoder 0 1).bytes := (answer_eq oneTick).1
  constructor
  · rw [hanswer, stores_iff]
    exact fun F now st => ⟨rfl, (applyPacket_readings now st _).1 rfl⟩
  · rintro ⟨hleft, -⟩
    rw [hanswer, stores_iff] at hleft
    have hstored := (hleft Int 0 (MinotaurState.fresh restOdometry)).2
    rw [(applyPacket_readings _ _ _).1 rfl] at hstored
    exact absurd hstored (by decide)

end MinotaurRobot.Link
