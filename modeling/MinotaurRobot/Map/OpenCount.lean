import Mathlib.Data.Nat.Bitwise
import MinotaurRobot.Lib.Window
import MinotaurRobot.Map.Point

/-!
# The count of a point

The eight words of `history` are one register of 256 bits, `Point.bit`.
`shift_bit` says that the loop in `shift` moves this register up by one place:
the carry from word to word loses no bit.

`opencount` is then the count of the lowest 255 places.  One more observation
adds the bit that comes in and takes off the bit that arrives at place 255, the
topmost bit of `history[7]`, and `ones_push` is the same account.  The sum in
between can be 256 and wrap in the `uint8_t`, but then every place is set, the
bit taken off is set as well, and the result is back at 255.
-/

namespace MinotaurRobot.Map

open MinotaurRobot.Lib.Window

/-! ## The register -/

/-- Bit `n` of the register, from the lowest bit of `history[0]` on. -/
def Point.bit (p : Point) (n : Nat) : Bool :=
  if h : n / 32 < 8 then p.history[n / 32].toNat.testBit (n % 32) else false

theorem topBit_eq (x : UInt32) : decide (0x80000000 &&& x ≠ 0) = x.toNat.testBit 31 := by
  have hand : (0x80000000 &&& x).toNat = 2 ^ 31 * (x.toNat.testBit 31).toNat := by
    rw [UInt32.toNat_and]
    exact Nat.two_pow_and x.toNat 31
  have hzero : 0x80000000 &&& x = 0 ↔ x.toNat.testBit 31 = false := by
    rw [← UInt32.toNat_inj, hand]
    cases x.toNat.testBit 31 <;> simp
  by_cases hclear : 0x80000000 &&& x = 0
  · rw [hzero.1 hclear, decide_eq_false (not_not_intro hclear)]
  · rw [Bool.of_not_eq_false (mt hzero.2 hclear), decide_eq_true hclear]

/-- A word that is moved up by one place with a carry at its end. -/
theorem toNat_shifted (x : UInt32) (b : Bool) :
    ((x <<< 1) + b.toUInt32).toNat = 2 * (x.toNat % 2 ^ 31) + b.toNat := by
  have hshift : (x <<< 1).toNat = x.toNat * 2 % 2 ^ 32 := by
    rw [UInt32.toNat_shiftLeft, Nat.shiftLeft_eq]
    rfl
  have hbit : b.toUInt32.toNat = b.toNat := by cases b <;> rfl
  have hle : b.toNat ≤ 1 := Bool.toNat_le b
  rw [UInt32.toNat_add, hshift, hbit]
  omega

theorem testBit_shifted_zero (x : UInt32) (b : Bool) :
    ((x <<< 1) + b.toUInt32).toNat.testBit 0 = b := by
  rw [toNat_shifted, Nat.testBit_zero]
  cases b <;> simp

theorem testBit_shifted_succ (x : UInt32) (b : Bool) {j : Nat} (hj : j < 31) :
    ((x <<< 1) + b.toUInt32).toNat.testBit (j + 1) = x.toNat.testBit j := by
  have hle : b.toNat ≤ 1 := Bool.toNat_le b
  have hhalf : (2 * (x.toNat % 2 ^ 31) + b.toNat) / 2 = x.toNat % 2 ^ 31 := by omega
  rw [toNat_shifted, Nat.testBit_succ, hhalf, Nat.testBit_mod_two_pow]
  simp [hj]

/-- What enters word `i`: the new bit, or the top bit of the word below. -/
def carry (history : Vector UInt32 8) (newbit : Bool) : Nat → Bool
  | 0 => newbit
  | i + 1 => if h : i < 8 then history[i].toNat.testBit 31 else false

/-- The words behind `k` rounds of the loop. -/
def shiftedTo (history : Vector UInt32 8) (newbit : Bool) (k : Nat) : Vector UInt32 8 :=
  Vector.ofFn fun i =>
    if i.val < k then (history.get i <<< 1) + (carry history newbit i).toUInt32 else history.get i

theorem getElem_shiftedTo (history : Vector UInt32 8) (newbit : Bool) (k : Nat) {i : Nat}
    (hi : i < 8) :
    (shiftedTo history newbit k)[i] =
      if i < k then (history[i] <<< 1) + (carry history newbit i).toUInt32 else history[i] := by
  unfold shiftedTo
  rw [Vector.getElem_ofFn]
  rfl

theorem shiftWord_shiftedTo (history : Vector UInt32 8) (newbit : Bool) {k : Nat} (hk : k < 8) :
    shiftWord (shiftedTo history newbit k, carry history newbit k) ⟨k, hk⟩ =
      (shiftedTo history newbit (k + 1), carry history newbit (k + 1)) := by
  have hword : (shiftedTo history newbit k)[k] = history[k] := by
    rw [getElem_shiftedTo _ _ _ hk, if_neg (Nat.lt_irrefl k)]
  have hcarry : carry history newbit (k + 1) = history[k].toNat.testBit 31 := dif_pos hk
  show ((shiftedTo history newbit k).set k _ hk, decide (_ &&& (shiftedTo history newbit k)[k] ≠ 0))
    = _
  rw [hword, topBit_eq, hcarry]
  congr 1
  ext i hi
  rw [Vector.getElem_set, getElem_shiftedTo _ _ _ hi, getElem_shiftedTo _ _ _ hi]
  rcases Nat.lt_trichotomy i k with hlt | rfl | hgt
  · rw [if_neg (by omega), if_pos hlt, if_pos (by omega)]
  · rw [if_pos rfl, if_pos (by omega), ← hword]
    rfl
  · rw [if_neg (by omega), if_neg (by omega), if_neg (by omega)]

/-- Behind `k` rounds `newbit` holds the carry into word `k`. -/
theorem foldl_shiftWord (history : Vector UInt32 8) (newbit : Bool) {k : Nat} (hk : k ≤ 8) :
    ((List.finRange 8).take k).foldl shiftWord (history, newbit) =
      (shiftedTo history newbit k, carry history newbit k) := by
  induction k with
  | zero =>
    have hsame : shiftedTo history newbit 0 = history := by
      ext i hi
      rw [getElem_shiftedTo _ _ _ hi, if_neg (Nat.not_lt_zero i)]
    rw [hsame]
    rfl
  | succ k ih =>
    have hlt : k < (List.finRange 8).length := by
      rw [List.length_finRange]
      omega
    rw [List.take_succ_eq_append_getElem hlt, List.foldl_concat, ih (by omega),
      List.getElem_finRange]
    exact shiftWord_shiftedTo history newbit (by omega)

theorem shift_history (p : Point) (newbit : Bool) :
    (p.shift newbit).history = shiftedTo p.history newbit 8 := by
  have hall : (List.finRange 8).take 8 = List.finRange 8 := rfl
  have hloop := foldl_shiftWord p.history newbit (Nat.le_refl 8)
  rw [hall] at hloop
  show ((List.finRange 8).foldl shiftWord (p.history, newbit)).1 = _
  rw [hloop]

theorem bit_eq (p : Point) {i j : Nat} (hi : i < 8) (hj : j < 32) :
    p.bit (32 * i + j) = p.history[i].toNat.testBit j := by
  have hword : (32 * i + j) / 32 = i := by omega
  have hplace : (32 * i + j) % 32 = j := by omega
  unfold Point.bit
  simp only [hword, hplace]
  exact dif_pos hi

theorem shift_bit_eq (p : Point) (newbit : Bool) {i j : Nat} (hi : i < 8) (hj : j < 32) :
    (p.shift newbit).bit (32 * i + j) =
      ((p.history[i] <<< 1) + (carry p.history newbit i).toUInt32).toNat.testBit j := by
  rw [bit_eq _ hi hj]
  simp only [shift_history]
  rw [getElem_shiftedTo _ _ _ hi, if_pos hi]

/-- The whole register moves up by one place. -/
theorem shift_bit (p : Point) (newbit : Bool) {n : Nat} (hn : n < 256) :
    (p.shift newbit).bit n = push p.bit newbit n := by
  obtain ⟨i, j, rfl, hi, hj⟩ : ∃ i j, n = 32 * i + j ∧ i < 8 ∧ j < 32 :=
    ⟨n / 32, n % 32, by omega, by omega, by omega⟩
  rw [shift_bit_eq p newbit hi hj]
  cases j with
  | succ j =>
    rw [testBit_shifted_succ _ _ (by omega), ← bit_eq p hi (by omega)]
    rfl
  | zero =>
    rw [testBit_shifted_zero]
    cases i with
    | zero => rfl
    | succ i =>
      -- the place below is the last one of the word below
      have hbelow : 32 * (i + 1) + 0 = (32 * i + 31) + 1 := by omega
      have hlast : push p.bit newbit ((32 * i + 31) + 1) = p.bit (32 * i + 31) := rfl
      rw [hbelow, hlast, bit_eq p (by omega) (by omega)]
      exact dif_pos (by omega)

/-- The bit that `shift` looks at last is the one that reached place 255. -/
theorem shift_opencount (p : Point) (newbit : Bool) :
    (p.shift newbit).opencount + ((p.shift newbit).bit 255).toUInt8 =
      p.opencount + newbit.toUInt8 := by
  have htop : (p.shift newbit).bit 255 =
      decide ((0x80000000 : UInt32) &&& (p.shift newbit).history[7] ≠ 0) := by
    rw [topBit_eq]
    exact bit_eq _ (i := 7) (j := 31) (by decide) (by decide)
  have hcount : (p.shift newbit).opencount =
      if (p.shift newbit).history[7] &&& 0x80000000 ≠ 0
        then (if newbit then p.opencount + 1 else p.opencount) - 1
        else if newbit then p.opencount + 1 else p.opencount := rfl
  have hin : (if newbit then p.opencount + 1 else p.opencount) =
      p.opencount + newbit.toUInt8 := by
    cases newbit
    · exact (UInt8.add_zero _).symm
    · rfl
  rw [hcount, htop, hin, UInt32.and_comm]
  split_ifs with hset
  · rw [decide_eq_true hset]
    exact UInt8.sub_add_cancel _ _
  · rw [decide_eq_false hset]
    exact UInt8.add_zero _

/-! ## The invariant -/

/-- The count is that of the lowest 255 places. -/
def Point.Exact (p : Point) : Prop := p.opencount.toNat = ones 255 p.bit

theorem fresh_exact : Point.fresh.Exact := by
  unfold Point.Exact
  decide +kernel

theorem ones_shift (p : Point) (newbit : Bool) :
    ones 255 (p.shift newbit).bit + ((p.shift newbit).bit 255).toNat =
      ones 255 p.bit + newbit.toNat := by
  have hsame : ones 255 (p.shift newbit).bit = ones 255 (push p.bit newbit) :=
    ones_congr fun n hn => shift_bit p newbit (by omega)
  rw [hsame, shift_bit p newbit (by omega), ones_push]

/-- One observation keeps the count exact.  The sum may wrap in between, and
the count behind it does not. -/
theorem shift_exact {p : Point} (h : p.Exact) (newbit : Bool) : (p.shift newbit).Exact := by
  have hcount := congrArg UInt8.toNat (shift_opencount p newbit)
  have hones := ones_shift p newbit
  have hle := ones_le 255 (p.shift newbit).bit
  have hbit : ∀ b : Bool, b.toUInt8.toNat = b.toNat := by decide
  unfold Point.Exact at h ⊢
  rw [UInt8.toNat_add, UInt8.toNat_add, hbit, hbit, h, ← hones] at hcount
  have hlt := (p.shift newbit).opencount.toNat_lt
  omega

/-! ## Every sequence of observations -/

/-- `incOpen` or `incClosed`. -/
def Point.observe (p : Point) (isOpen : Bool) : Point :=
  if isOpen then p.incOpen else p.incClosed

def Point.observeAll (p : Point) (calls : List Bool) : Point := calls.foldl Point.observe p

/-- What `0xAAAAAAAA` stands for at places 254 to 0, the oldest first. -/
def Point.standIn : List Bool := (List.range 255).map fun i => decide (i % 2 = 1)

theorem observe_eq (p : Point) (isOpen : Bool) : p.observe isOpen = p.shift isOpen := by
  cases isOpen <;> rfl

theorem front_fresh : front 255 Point.fresh.bit = Point.standIn := by decide +kernel

theorem observeAll_concat (p : Point) (calls : List Bool) (isOpen : Bool) :
    p.observeAll (calls ++ [isOpen]) = (p.observeAll calls).shift isOpen := by
  rw [← observe_eq]
  exact List.foldl_concat ..

theorem observeAll_exact {p : Point} (h : p.Exact) (calls : List Bool) :
    (p.observeAll calls).Exact := by
  induction calls using List.reverseRecOn with
  | nil => exact h
  | append_singleton calls isOpen ih =>
    rw [observeAll_concat]
    exact shift_exact ih isOpen

/-- The register behind some calls holds the calls. -/
theorem observeAll_bit (p : Point) (calls : List Bool) {n : Nat} (hn : n < 256) :
    (p.observeAll calls).bit n = pushAll p.bit calls n := by
  induction calls using List.reverseRecOn generalizing n with
  | nil => rfl
  | append_singleton calls isOpen ih =>
    rw [observeAll_concat, shift_bit _ _ hn, pushAll, List.foldl_concat]
    cases n with
    | zero => rfl
    | succ n => exact ih (by omega)

theorem opencount_observeAll (calls : List Bool) :
    (Point.fresh.observeAll calls).opencount.toNat =
      ((Point.standIn ++ calls).rtake 255).count true := by
  have hones : ones 255 (Point.fresh.observeAll calls).bit =
      ones 255 (pushAll Point.fresh.bit calls) :=
    ones_congr fun n hn => observeAll_bit _ calls (by omega)
  rw [observeAll_exact fresh_exact calls, hones, ones_pushAll, front_fresh]

/-- The count is exact behind every sequence of calls: it is the number of set
bits among the lowest 255, which are the last 255 observations with the pattern
of the constructor in the place of missing ones, no call takes it across the
ends of its range, and `getProb` is the number of `incOpen` among the last 255
calls once there were that many. -/
theorem point_count_exact (calls : List Bool) :
    let p := Point.fresh.observeAll calls
    p.opencount.toNat = ones 255 p.bit ∧
      p.opencount.toNat = ((Point.standIn ++ calls).rtake 255).count true ∧
      (∀ isOpen, (p.observe isOpen).opencount.toNat + (p.bit 254).toNat =
        p.opencount.toNat + isOpen.toNat) ∧
      (255 ≤ calls.length → p.getProb.toNat = (calls.rtake 255).count true) := by
  intro p
  have hexact : p.Exact := observeAll_exact fresh_exact calls
  refine ⟨hexact, opencount_observeAll calls, ?_, ?_⟩
  · intro isOpen
    have hout : (p.shift isOpen).bit 255 = p.bit 254 := shift_bit p isOpen (by omega)
    have hones := ones_shift p isOpen
    rw [hout, ← shift_exact hexact isOpen, ← hexact] at hones
    rw [observe_eq]
    exact hones
  · intro hlong
    rw [← rtake_append_of_le hlong]
    exact opencount_observeAll calls

theorem point_count_exact_open :
    (Point.fresh.observeAll (List.replicate 300 true)).getProb.toNat = 255 := by
  have hlong : 255 ≤ (List.replicate 300 true).length := by
    rw [List.length_replicate]
    omega
  have hwindow := (point_count_exact (List.replicate 300 true)).2.2.2 hlong
  rw [hwindow]
  decide +kernel

end MinotaurRobot.Map
