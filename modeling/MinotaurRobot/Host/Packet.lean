import Mathlib.Tactic.Common

/-!
# Packets of the serial link

`MinosPacket` of `minotaur.h`, with the two views of its data union that the
host uses, and `sendpacket`.  The host is little-endian, so `udata8[0]` is the
low byte of `udata16`.
-/

namespace MinotaurRobot.Host

/-- `MinosPacket`. -/
structure MinosPacket where
  sync : UInt8
  seq : UInt8
  command : UInt8
  /-- `udata8[0]`. -/
  udata8Fst : UInt8
  /-- `udata8[1]`. -/
  udata8Snd : UInt8
  deriving DecidableEq, Repr

/-- The packed bytes. -/
def MinosPacket.bytes (p : MinosPacket) : List UInt8 :=
  [p.sync, p.seq, p.command, p.udata8Fst, p.udata8Snd]

/-- `udata16`. -/
def MinosPacket.udata16 (p : MinosPacket) : UInt16 :=
  UInt16.ofNat (p.udata8Fst.toNat + 256 * p.udata8Snd.toNat)

theorem MinosPacket.bytes_length (p : MinosPacket) : p.bytes.length = 5 := rfl

theorem MinosPacket.bytes_injective : Function.Injective MinosPacket.bytes := by
  intro p q h
  simp only [MinosPacket.bytes, List.cons.injEq, and_true] at h
  obtain ⟨h₀, h₁, h₂, h₃, h₄⟩ := h
  cases p
  cases q
  simp_all

/-- The bytes of some packets on the wire. -/
def wire (packets : List MinosPacket) : List UInt8 := packets.flatMap MinosPacket.bytes

theorem wire_length (packets : List MinosPacket) :
    (wire packets).length = 5 * packets.length := by
  induction packets with
  | nil => rfl
  | cons p packets ih =>
    rw [wire, List.flatMap_cons, List.length_append, ← wire, ih, p.bytes_length,
      List.length_cons]
    omega

/-- `while(!checkpacket(++minos_seq));`.  It ends within 256 rounds or waits
until a lock is released. -/
def nextSeq (checkpacket : UInt8 → Bool) : Nat → UInt8 → Option UInt8
  | 0, _ => none
  | rounds + 1, minosSeq =>
    if checkpacket (minosSeq + 1) then some (minosSeq + 1)
    else nextSeq checkpacket rounds (minosSeq + 1)

/-- `sendpacket`: the packet written, whose `seq` is the new `minos_seq`. -/
def sendpacket (checkpacket : UInt8 → Bool) (minosSeq command : UInt8) (data : UInt16) :
    Option MinosPacket :=
  (nextSeq checkpacket 256 minosSeq).map fun seq =>
    { sync := 0xAA
      seq := seq
      command := command
      udata8Fst := data.toUInt8
      udata8Snd := (data >>> 8).toUInt8 }

end MinotaurRobot.Host
