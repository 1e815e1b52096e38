import MinotaurRobot.Lib.Counter
import MinotaurRobot.Mcu.MainLoop

/-!
# The two reads of an encoder response

A response to a request for an encoder pushes `TICKS >> 8` and then `TICKS`,
and reads the counter for each of them.  The T3 interrupt stays enabled, so
the counter may move between the two reads.

The value that is formed lies as many times 256 below the second reading as
carries went into the high byte in between.  `reports_moment_iff` says when the
counter has had this value, and `movedAsFar_iff_of_few` that with fewer than 256
interrupts it must not have carried at all.
-/

namespace MinotaurRobot.Mcu

open Lib.Counter

/-! ## The two pushes -/

/-- `LEFT_TICKS` or `RIGHT_TICKS`. -/
inductive EncoderSide where
  | left
  | right
  deriving DecidableEq, Repr

def State.ticks (s : State) : EncoderSide → Int
  | .left => s.encoders.left.ticks
  | .right => s.encoders.right.ticks

/-- `BUFF_push(&TX_DATA_BUFFER, c)`. -/
def State.push (s : State) (c : UInt8) : State :=
  { s with txDataBuffer := (buffPush s.txDataBuffer c).1 }

/-- The state behind the two pushes, and the two bytes. -/
structure TicksPushed where
  state : State
  high : UInt8
  low : UInt8

/-- The last two pushes of an encoder response, with the interrupts `gap`
between the two reads of the counter. -/
def pushTicks (side : EncoderSide) (gap : List Interrupt) (s : State) : TicksPushed :=
  let high := ticksHigh (s.ticks side)
  let s := gap.foldl State.interrupt (s.push high)
  let low := ticksLow (s.ticks side)
  ⟨s.push low, high, low⟩

/-- The 16-bit value of the two bytes. -/
def TicksPushed.value (p : TicksPushed) : UInt16 := UInt16.ofNat (256 * p.high.toNat + p.low.toNat)

theorem respond_eq_push (s : State) (command d1 d2 : UInt8) :
    respond s command d1 d2 =
      ((((s.push syncByte).push s.controlpacket.sequence).push command).push d1).push d2 := by
  simp only [respond, response, pushAll, State.push, List.foldl_cons, List.foldl_nil]

/-- Without an interrupt the two pushes end a response of the main loop. -/
theorem respond_eq_pushTicks (side : EncoderSide) (s : State) (command : UInt8) :
    respond s command (ticksHigh (s.ticks side)) (ticksLow (s.ticks side)) =
      (pushTicks side []
        (((s.push syncByte).push s.controlpacket.sequence).push command)).state := by
  have hticks (c : UInt8) (s : State) : (s.push c).ticks side = s.ticks side := by
    cases side <;> rfl
  simp only [respond_eq_push, pushTicks, List.foldl_nil, hticks]

/-- The counter behind the first `k` interrupts of the gap. -/
def countAt (side : EncoderSide) (gap : List Interrupt) (s : State) (k : ℕ) : Int :=
  ((gap.take k).foldl State.interrupt s).ticks side

/-- The value is one that the counter had between the two reads. -/
def ReportsMoment (side : EncoderSide) (gap : List Interrupt) (s : State) : Prop :=
  ∃ k ≤ gap.length, (pushTicks side gap s).value = UInt16.ofInt (countAt side gap s k)

/-- The carries out of the low byte of the counter between the two reads, less
the borrows, modulo 256. -/
def carries (side : EncoderSide) (gap : List Interrupt) (s : State) : Int :=
  (countAt side gap s gap.length / 256 - countAt side gap s 0 / 256) % 256

/-! ## The counter in the gap -/

theorem quadrature_ticks (e : Encoder) (current : UInt8) :
    |(quadrature e current).ticks - e.ticks| ≤ 1 := by
  unfold quadrature
  rw [abs_le]
  split_ifs <;> simp

theorem interrupt_ticks (s : State) (i : Interrupt) (side : EncoderSide) :
    |(s.interrupt i).ticks side - s.ticks side| ≤ 1 := by
  have hsame : |s.ticks side - s.ticks side| ≤ 1 := by simp
  cases i with
  | t3 pins =>
    cases side with
    | left => exact quadrature_ticks _ _
    | right => exact quadrature_ticks _ _
  | u1rx perr ferr =>
    unfold State.interrupt
    dsimp only
    split
    · exact hsame
    · exact hsame
  | mi2c1 | adc1 | u1tx | t4 => exact hsame

/-- An interrupt moves the counter by one at most. -/
theorem countAt_step (side : EncoderSide) (gap : List Interrupt) (s : State) (k : ℕ) :
    |countAt side gap s (k + 1) - countAt side gap s k| ≤ 1 := by
  unfold countAt
  by_cases hk : k < gap.length
  · rw [List.take_succ_eq_append_getElem hk, List.foldl_append]
    exact interrupt_ticks _ _ side
  · rw [List.take_of_length_le (by omega), List.take_of_length_le (by omega)]
    simp

theorem interrupt_encoders (s : State) (i : Interrupt) :
    (s.interrupt i).encoders =
      match i with
      | .t3 pins => t3Interrupt s.encoders pins
      | _ => s.encoders := by
  cases i with
  | u1rx perr ferr =>
    unfold State.interrupt
    dsimp only
    split <;> rfl
  | mi2c1 | adc1 | u1tx | t4 | t3 => rfl

theorem foldl_encoders {s s' : State} (h : s.encoders = s'.encoders) (gap : List Interrupt) :
    (gap.foldl State.interrupt s).encoders = (gap.foldl State.interrupt s').encoders := by
  induction gap generalizing s s' with
  | nil => exact h
  | cons i gap ih =>
    apply ih
    rw [interrupt_encoders, interrupt_encoders, h]

theorem ticks_congr {s s' : State} (h : s.encoders = s'.encoders) (side : EncoderSide) :
    s.ticks side = s'.ticks side := by
  unfold State.ticks
  rw [h]

/-- The two bytes come from the counter at the two ends of the gap. -/
theorem pushTicks_bytes (side : EncoderSide) (gap : List Interrupt) (s : State) :
    (pushTicks side gap s).high = ticksHigh (countAt side gap s 0) ∧
      (pushTicks side gap s).low = ticksLow (countAt side gap s gap.length) := by
  refine ⟨rfl, ?_⟩
  unfold countAt
  rw [List.take_length]
  have hpush : (s.push (ticksHigh (s.ticks side))).encoders = s.encoders := rfl
  exact congrArg ticksLow (ticks_congr (foldl_encoders hpush gap) side)

/-! ## The value as a number -/

theorem ticksHigh_toNat (ticks : Int) : ((ticksHigh ticks).toNat : Int) = ticks / 256 % 256 := by
  rw [ticksHigh, Int.shiftRight_eq_div_pow]
  simp only [UInt8.ofInt, UInt8.toNat_ofNat']
  omega

theorem ticksLow_toNat (ticks : Int) : ((ticksLow ticks).toNat : Int) = ticks % 256 := by
  rw [ticksLow]
  simp only [UInt8.ofInt, UInt8.toNat_ofNat']
  omega

theorem carries_range (side : EncoderSide) (gap : List Interrupt) (s : State) :
    0 ≤ carries side gap s ∧ carries side gap s < 256 :=
  ⟨Int.emod_nonneg _ (by decide), Int.emod_lt_of_pos _ (by decide)⟩

/-- The counter has the value that is formed exactly if it is `carries` times
256 below the second reading, modulo `2 ^ 16`. -/
theorem value_eq_iff (side : EncoderSide) (gap : List Interrupt) (s : State) (count : Int) :
    (pushTicks side gap s).value = UInt16.ofInt count ↔
      (count - (countAt side gap s gap.length - 256 * carries side gap s)) % 65536 = 0 := by
  obtain ⟨hhigh, hlow⟩ := pushTicks_bytes side gap s
  have hfirst := ticksHigh_toNat (countAt side gap s 0)
  have hlast := ticksLow_toNat (countAt side gap s gap.length)
  unfold TicksPushed.value carries
  rw [hhigh, hlow, ← UInt16.toNat_inj]
  simp only [UInt16.ofInt, UInt16.toNat_ofNat']
  omega

/-! ## Moments -/

/-- At some moment of the gap the counter was at least as many times 256 below
its second reading as there were carries, or above it by as much as is missing
to a whole turn of 256 carries. -/
def MovedAsFar (side : EncoderSide) (gap : List Interrupt) (s : State) : Prop :=
  ∃ k ≤ gap.length,
    256 * carries side gap s ≤ countAt side gap s gap.length - countAt side gap s k ∨
    256 * (256 - carries side gap s) ≤
      countAt side gap s k - countAt side gap s gap.length

/-- The reported value is one of the counter in the gap exactly if the counter
has moved as far as it carried. -/
theorem reports_moment_iff (side : EncoderSide) (gap : List Interrupt) (s : State) :
    ReportsMoment side gap s ↔ MovedAsFar side gap s := by
  have hstep := countAt_step side gap s
  constructor
  · rintro ⟨k, hk, hvalue⟩
    rw [value_eq_iff] at hvalue
    exact ⟨k, hk, by omega⟩
  · rintro ⟨k, hk, hfar⟩
    have hrange := carries_range side gap s
    rcases hfar with hbelow | habove
    · obtain ⟨n, -, hn, hcount⟩ := exists_count_eq hstep hk
        (z := countAt side gap s gap.length - 256 * carries side gap s) (by omega)
      refine ⟨n, hn, (value_eq_iff side gap s _).2 ?_⟩
      omega
    · obtain ⟨n, -, hn, hcount⟩ := exists_count_eq hstep hk
        (z := countAt side gap s gap.length + 256 * (256 - carries side gap s)) (by omega)
      refine ⟨n, hn, (value_eq_iff side gap s _).2 ?_⟩
      omega

theorem countAt_far (side : EncoderSide) (gap : List Interrupt) (s : State) {k : ℕ}
    (hk : k ≤ gap.length) :
    |countAt side gap s gap.length - countAt side gap s k| ≤ gap.length := by
  have hfar := abs_count_sub_le (countAt_step side gap s) hk
  omega

/-- In fewer than 256 interrupts the counter cannot make up for a carry. -/
theorem movedAsFar_iff_of_few {side : EncoderSide} {gap : List Interrupt} {s : State}
    (hfew : gap.length < 256) : MovedAsFar side gap s ↔ carries side gap s = 0 := by
  constructor
  · rintro ⟨k, hk, hmoved⟩
    have hfar := abs_le.1 (countAt_far side gap s hk)
    have hrange := carries_range side gap s
    omega
  · intro hnone
    refine ⟨gap.length, le_refl _, Or.inl ?_⟩
    rw [hnone]
    simp

/-- One tick forwards at 255: the bytes are those of 0, and the counter was
255 and then 256. -/
theorem pushTicks_across_carry :
    let s := { State.init with encoders := ⟨⟨0x00, 255⟩, ⟨0x00, 0⟩⟩ }
    let gap : List Interrupt := [.t3 ⟨false, false, false, true⟩]
    (pushTicks .left gap s).value = 0 ∧ ¬ReportsMoment .left gap s := by
  refine ⟨by decide, ?_⟩
  rintro ⟨k, hk, hvalue⟩
  rcases Nat.le_one_iff_eq_zero_or_eq_one.1 hk with rfl | rfl
  · revert hvalue
    decide
  · revert hvalue
    decide

end MinotaurRobot.Mcu
