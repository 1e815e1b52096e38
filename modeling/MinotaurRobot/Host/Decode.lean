import MinotaurRobot.Host.Recv
import MinotaurRobot.Lib.Framing

/-!
# The decode loop against the framing library

The decode loop of `recv` works on the ring, and `Lib.Framing.drain` works on
a queue.  `decodeLoop_spec` relates them: the packets decoded are the frames
of the unread bytes, the loop never throws, and it stops because its test
fails.

`recv_spec` is the specification of one call of `recv` whose read loses
nothing: the unread bytes go through `Lib.Framing.receive`, and the packets
go into `nextState`, which is then committed or kept.
-/

namespace MinotaurRobot.Host

open Lib Lib.Framing

variable {F : Type}

/-- The test of the inner loop. -/
def isSync (c : UInt8) : Bool := c == 0xAA

/-! ## The two loops -/

theorem contents_eq_nil_iff (b : SerialRing) : b.contents = [] ↔ b.start = b.stop := by
  rw [← List.length_eq_zero_iff, contents_length, unread_eq_zero_iff]

/-- The oldest unread byte and the bytes behind it. -/
theorem contents_cons {b : SerialRing} (h : b.start ≠ b.stop) :
    b.contents = b.data b.start :: (b.advance 1).contents := by
  have hpos : 0 < b.unread := Nat.pos_of_ne_zero (mt (unread_eq_zero_iff b).1 h)
  have hhead := contents_getElem? (b := b) hpos
  rw [Nat.add_zero, Nat.mod_eq_of_lt b.start_lt] at hhead
  rw [advance_contents hpos]
  cases hc : b.contents with
  | nil =>
    rw [hc] at hhead
    simp at hhead
  | cons c rest =>
    rw [hc] at hhead
    simp only [List.getElem?_cons_zero, Option.some.injEq] at hhead
    rw [hhead, List.drop_one, List.tail_cons]

/-- The inner loop drops the bytes in front of the first sync byte. -/
theorem dropOutOfSync_contents (rounds : Nat) (b : SerialRing) (h : b.unread ≤ rounds) :
    (dropOutOfSync rounds b).contents = b.contents.dropWhile fun c => !isSync c := by
  induction rounds generalizing b with
  | zero =>
    have hnil : b.contents = [] := by
      rw [← List.length_eq_zero_iff, contents_length]
      omega
    rw [dropOutOfSync, hnil, List.dropWhile_nil]
  | succ rounds ih =>
    unfold dropOutOfSync
    by_cases hempty : b.start = b.stop
    · rw [if_neg (by simp [hempty]), (contents_eq_nil_iff b).2 hempty, List.dropWhile_nil]
    · have hcons := contents_cons hempty
      have hlen := congrArg List.length hcons
      rw [contents_length, List.length_cons, contents_length] at hlen
      by_cases hsync : b.data b.start = 0xAA
      · rw [if_neg (by simp [hsync]), hcons, List.dropWhile_cons_of_neg (by simp [isSync, hsync])]
      · rw [if_pos (by simp [hsync, hempty]), ih _ (by omega), hcons,
          List.dropWhile_cons_of_pos (by simp [isSync, hsync])]

/-- `packetize` takes the five oldest unread bytes. -/
theorem packetize_spec {m : Minotaur F} (h : 5 ≤ m.ring.unread) :
    ∃ p m', packetize m = some (p, m') ∧ p.bytes = m.ring.contents.take 5 ∧
      m'.ring.contents = m.ring.contents.drop 5 ∧ m'.nextState = m.nextState ∧
      m'.currentState = m.currentState := by
  rw [packetize, if_neg (by omega)]
  refine ⟨_, _, rfl, ?_, advance_contents h, rfl, rfl⟩
  refine List.ext_getElem? fun i => ?_
  rw [List.getElem?_take]
  by_cases hi : i < 5
  · rw [if_pos hi, contents_getElem? (by omega)]
    have hcases : i = 0 ∨ i = 1 ∨ i = 2 ∨ i = 3 ∨ i = 4 := by omega
    rcases hcases with rfl | rfl | rfl | rfl | rfl <;> rfl
  · rw [if_neg hi]
    exact List.getElem?_eq_none (by rw [MinosPacket.bytes_length]; omega)

/-- What a sequence of packets makes of `nextState`.  `i` is the number of the
first packet. -/
def applyAll (clock : Nat → UInt32) : Nat → MinotaurState F → List MinosPacket → MinotaurState F
  | _, st, [] => st
  | i, st, p :: packets => applyAll clock (i + 1) (applyPacket (clock i) st p) packets

/-- What the decode loop made of a state. -/
structure Decoded (clock : Nat → UInt32) (i : Nat) (m m' : Minotaur F)
    (packets : List MinosPacket) (out : List (List UInt8) × List UInt8) : Prop where
  frames : packets.map MinosPacket.bytes = out.1
  rest : m'.ring.contents = out.2
  next : m'.nextState = applyAll clock i m.nextState packets
  current : m'.currentState = m.currentState

/-- The decode loop takes the frames off the unread bytes. -/
theorem decodeLoop_spec (clock : Nat → UInt32) (rounds i : Nat) (m : Minotaur F) :
    ∃ m' packets, decodeLoop clock rounds i m = some (m', packets) ∧
      Decoded clock i m m' packets (drain isSync 5 rounds m.ring.contents) := by
  induction rounds generalizing i m with
  | zero => exact ⟨m, [], rfl, rfl, rfl, rfl, rfl⟩
  | succ rounds ih =>
    rw [decodeLoop, drain, contents_length]
    by_cases hlong : 5 < m.ring.unread
    · rw [if_pos hlong, if_pos hlong]
      have hdrop := dropOutOfSync_contents m.ring.unread m.ring (Nat.le_refl _)
      generalize dropOutOfSync m.ring.unread m.ring = ring at hdrop
      dsimp only
      rw [← hdrop, contents_length]
      by_cases hlong' : 5 < ring.unread
      · rw [if_pos hlong', if_pos hlong']
        obtain ⟨p, m₁, hpacket, hbytes, hrest, hnext, hcurrent⟩ :=
          packetize_spec (m := { m with ring := ring }) (by dsimp only; omega)
        obtain ⟨m₂, packets, hloop, hdecoded⟩ := ih (i + 1)
          { m₁ with nextState := applyPacket (clock i) m₁.nextState p }
        refine ⟨m₂, p :: packets, by simp [hpacket, hloop], ?_, ?_, ?_, ?_⟩
        · rw [List.map_cons, hdecoded.frames, hbytes, hrest]
        · rw [hdecoded.rest, hrest]
        · rw [hdecoded.next, applyAll, hnext]
        · rw [hdecoded.current, hcurrent]
      · rw [if_neg hlong', if_neg hlong']
        obtain ⟨m', packets, hloop, hdecoded⟩ := ih i { m with ring := ring }
        exact ⟨m', packets, hloop, hdecoded.frames, hdecoded.rest, hdecoded.next,
          hdecoded.current⟩
    · rw [if_neg hlong, if_neg hlong]
      exact ⟨m, [], rfl, rfl, rfl, rfl, rfl⟩

/-! ## One call of `recv` -/

/-- A read that loses nothing: it returns no bytes, or `errno` is clear and
the bytes fit. -/
def CleanRead (b : SerialRing) (call : ReadCall) : Prop :=
  call.block = [] ∨
    (call.wouldBlock = false ∧ call.block.length ≤ b.requestSize ∧
      b.unread + call.block.length ≤ 79)

instance (b : SerialRing) (call : ReadCall) : Decidable (CleanRead b call) := by
  unfold CleanRead
  infer_instance

/-- The fields of a state that do not belong to the position. -/
structure Readings where
  timestamp : UInt32
  leftEncoder : UInt16
  rightEncoder : UInt16
  irBank : UInt8
  battery : UInt8
  validTs : Bool
  validLeftEnc : Bool
  validRightEnc : Bool
  validIrBank : Bool
  validBattery : Bool
  deriving DecidableEq, Repr

def MinotaurState.readings (st : MinotaurState F) : Readings :=
  { timestamp := st.timestamp
    leftEncoder := st.leftEncoder
    rightEncoder := st.rightEncoder
    irBank := st.irBank
    battery := st.battery
    validTs := st.validTs
    validLeftEnc := st.validLeftEnc
    validRightEnc := st.validRightEnc
    validIrBank := st.validIrBank
    validBattery := st.validBattery }

theorem updatePosition_readings (odometry : Odometry F) (current next : MinotaurState F) :
    (updatePosition odometry current next).readings = next.readings := by
  unfold updatePosition
  dsimp only
  split <;> rfl

/-- What the end of `recv` made of a state `offered` for commit. -/
inductive Committed (odometry : Odometry F) (offered : MinotaurState F) (m : Minotaur F) :
    Option (MinotaurState F) → Prop where
  | refused (hreadings : m.nextState.readings = offered.readings) : Committed odometry offered m none
  | accepted {c : MinotaurState F} (hreadings : c.readings = offered.readings)
      (hcomplete : offered.sensorsComplete = true) (hcurrent : m.currentState = c)
      (hnext : m.nextState = MinotaurState.fresh odometry) : Committed odometry offered m (some c)

theorem commit_spec (odometry : Odometry F) (m : Minotaur F) :
    (commit odometry m).1.ring = m.ring ∧
      Committed odometry m.nextState (commit odometry m).1 (commit odometry m).2 := by
  unfold commit
  by_cases hcomplete : m.nextState.sensorsComplete = true
  · rw [if_pos hcomplete]
    have hreadings : (if (m.nextState.validLeftEnc && m.nextState.validRightEnc) ||
        !m.currentState.validTs then updatePosition odometry m.currentState m.nextState
        else m.nextState).readings = m.nextState.readings := by
      split
      · exact updatePosition_readings ..
      · rfl
    dsimp only
    split_ifs with hboth hpos hpos
    · rw [if_pos hboth] at hreadings
      exact ⟨rfl, .accepted hreadings hcomplete rfl rfl⟩
    · rw [if_pos hboth] at hreadings
      exact ⟨rfl, .refused hreadings⟩
    · exact ⟨rfl, .accepted rfl hcomplete rfl rfl⟩
    · exact ⟨rfl, .refused rfl⟩
  · rw [if_neg hcomplete]
    exact ⟨rfl, .refused rfl⟩

/-- What a clean call of `recv` did: the unread bytes went through `receive`,
and the packets served went into `nextState`, which was offered for commit. -/
structure Recvd (odometry : Odometry F) (clock : Nat → UInt32) (call : ReadCall)
    (m : Minotaur F) (r : RecvResult F) : Prop where
  receiver : ∀ history : List MinosPacket,
    Lib.Framing.receive isSync 5 ⟨m.ring.contents, history.map MinosPacket.bytes⟩ call.block =
      ⟨r.minotaur.ring.contents, (history ++ r.served).map MinosPacket.bytes⟩
  committed : Committed odometry (applyAll clock 0 m.nextState r.served) r.minotaur r.committed

/-- A read of nothing does not change the ring. -/
theorem takeIn_nil (b : SerialRing) (wouldBlock : Bool) :
    b.takeIn ⟨[], wouldBlock⟩ = (b, false) := by
  have hdata : Ring.writeBlock b.data b.stop [] = b.data :=
    funext fun j => Ring.writeBlock_before (by rw [List.length_nil]; omega)
  simp only [SerialRing.takeIn, hdata, List.length_nil]
  cases wouldBlock <;> rfl

/-- A clean call of `recv` does not throw. -/
theorem recv_spec (odometry : Odometry F) (clock : Nat → UInt32) {call : ReadCall}
    {m : Minotaur F} (hclean : CleanRead m.ring call) (hshort : m.ring.contents.length ≤ 5) :
    ∃ r, recv odometry clock call m = some r ∧ Recvd odometry clock call m r := by
  by_cases hblock : call.block = []
  · obtain ⟨block, wouldBlock⟩ := call
    dsimp only at hblock
    subst hblock
    rw [recv, takeIn_nil]
    refine ⟨_, rfl, ?_, .refused rfl⟩
    intro history
    dsimp only
    rw [List.append_nil]
    exact receive_nil hshort
  · rcases hclean with hnil | ⟨hwould, hrequest, hroom⟩
    · exact absurd hnil hblock
    have hpos : 0 < call.block.length := List.length_pos_iff.2 hblock
    have hcontents := takeIn_contents hwould hrequest (by rw [bufferSize]; omega)
    have hgo : (m.ring.takeIn call).2 = true := by
      rw [SerialRing.takeIn, hwould, if_neg (by decide), if_neg (by omega)]
    obtain ⟨m₁, packets, hloop, hdecoded⟩ := decodeLoop_spec clock
      (m.ring.takeIn call).1.unread 0 { m with ring := (m.ring.takeIn call).1 }
    obtain ⟨hring, hcommit⟩ := commit_spec odometry m₁
    have hnext : m₁.nextState = applyAll clock 0 m.nextState packets := hdecoded.next
    have hframes := hdecoded.frames
    have hrest := hdecoded.rest
    dsimp only at hframes hrest
    rw [hcontents, ← contents_length, hcontents] at hframes hrest
    refine ⟨⟨(commit odometry m₁).1, packets, (commit odometry m₁).2, packets.length != 0⟩,
      ?_, ?_, ?_⟩
    · unfold recv
      simp [hgo, hloop]
    · intro history
      dsimp only
      rw [Lib.Framing.receive, hring, hrest, List.map_append, hframes]
    · rw [← hnext]
      exact hcommit

end MinotaurRobot.Host
