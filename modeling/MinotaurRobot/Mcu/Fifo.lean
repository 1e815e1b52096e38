import MinotaurRobot.Lib.BoundedQueue
import MinotaurRobot.Mcu.Buffer

/-!
# The byte buffer as a queue

`MinotaurRobot.Mcu.Buffer` takes the bytes of the buffer for unsigned ones, and
its indices for cells of the array.  Here is the `BUFFER` of `minotaur.h` with
the types of the C code: the indices are `int`, and the cells are `char`.
`Represents` connects the two.

Every sequence of calls from `head = tail = 0` on is then one on a queue of 499
bytes (`calls_represents`).  Bytes are `unsigned char` in front of `BUFF_push`
and behind `BUFF_pop`, as in `main`.  An empty buffer pops as `0xFF`, which may
also be a byte that was pushed; `main` asks `BUFF_status` first.
-/

namespace MinotaurRobot.Mcu

open Lib Lib.BoundedQueue

/-! ## `UARTfunctions.c` -/

def buffFull : Int := 1

def buffEmpty : Int := -1

def buffNormal : Int := 0

/-- `BUFFER`, with the types of the C code. -/
structure CBuffer where
  head : Int
  tail : Int
  data : Int → Int8

/-- `BUFF_push`. -/
def CBuffer.buffPush (buff : CBuffer) (c : Int8) : CBuffer × Int :=
  if (buff.tail + 1).tmod maxBuffsize = buff.head then (buff, buffFull)
  else
    ({ buff with
        data := fun j => if j = buff.tail then c else buff.data j
        tail := (buff.tail + 1).tmod maxBuffsize }, buffNormal)

/-- `BUFF_pop`. -/
def CBuffer.buffPop (buff : CBuffer) : CBuffer × Int8 :=
  if buff.head = buff.tail then (buff, Int8.ofInt buffEmpty)
  else
    ({ buff with head := (buff.head + 1).tmod maxBuffsize }, buff.data buff.head)

/-- `BUFF_status`. -/
def CBuffer.buffStatus (buff : CBuffer) : Int :=
  if buff.head = buff.tail then buffEmpty
  else if (buff.tail + 1).tmod maxBuffsize = buff.head then buffFull
  else buffNormal

/-! ## Calls -/

/-- What a call returns, with the byte of `BUFF_pop` as an `unsigned char`. -/
inductive Returned where
  | code (n : Int)
  | byte (c : UInt8)
  deriving DecidableEq, Repr

def CBuffer.call (buff : CBuffer) : Call UInt8 → CBuffer × Returned
  | .push c => ((buff.buffPush c.toInt8).1, .code (buff.buffPush c.toInt8).2)
  | .pop => (buff.buffPop.1, .byte buff.buffPop.2.toUInt8)
  | .status => (buff, .code buff.buffStatus)

/-- The buffer behind some calls.  Its cells are not set at the start. -/
def CBuffer.after (data : Int → Int8) (cs : List (Call UInt8)) : CBuffer :=
  (calls CBuffer.call ⟨0, 0, data⟩ cs).1

def CBuffer.returns (data : Int → Int8) (cs : List (Call UInt8)) : List Returned :=
  (calls CBuffer.call ⟨0, 0, data⟩ cs).2

/-- The stored bytes, oldest first. -/
def CBuffer.bytes (buff : CBuffer) : List UInt8 :=
  Ring.window maxBuffsize (fun i => (buff.data i).toUInt8) buff.head.toNat
    (Ring.fill maxBuffsize buff.head.toNat buff.tail.toNat)

def levelCode : Level → Int
  | .empty => buffEmpty
  | .full => buffFull
  | .normal => buffNormal

/-- How the functions tell the answers of a queue. -/
def returned : Answer UInt8 → Returned
  | .pushed true => .code buffNormal
  | .pushed false => .code buffFull
  | .popped a => .byte (a.getD 0xFF)
  | .status level => .code (levelCode level)

/-! ## The two buffers -/

/-- The same indices, and the same bytes inside the array. -/
structure Represents (c : CBuffer) (b : Buffer) : Prop where
  head : c.head = b.head
  tail : c.tail = b.tail
  data : ∀ i : Nat, i < maxBuffsize → (c.data i).toUInt8 = b.data i

theorem represents_init (data : Int → Int8) :
    Represents ⟨0, 0, data⟩ { Buffer.init with data := fun i => (data i).toUInt8 } :=
  ⟨rfl, rfl, fun _ _ => rfl⟩

theorem tmod_next (i : Nat) :
    ((i : Int) + 1).tmod maxBuffsize = ((i + 1) % maxBuffsize : Nat) := by
  rw [Int.ofNat_tmod]
  rfl

section Represents

variable {c : CBuffer} {b : Buffer}

theorem Represents.bytes_eq (h : Represents c b) : c.bytes = b.contents := by
  have hhead : c.head.toNat = b.head := by rw [h.head, Int.toNat_natCast]
  have htail : c.tail.toNat = b.tail := by rw [h.tail, Int.toNat_natCast]
  rw [CBuffer.bytes, Buffer.contents, hhead, htail]
  exact Ring.window_congr fun i _ => h.data _ (Nat.mod_lt _ (by decide))

theorem Represents.inside (h : Represents c b) :
    (0 ≤ c.head ∧ c.head ≤ 499) ∧ 0 ≤ c.tail ∧ c.tail ≤ 499 := by
  have hhead := b.head_lt
  have htail := b.tail_lt
  unfold maxBuffsize at hhead htail
  rw [h.head, h.tail]
  omega

theorem Represents.full_iff (h : Represents c b) :
    (c.tail + 1).tmod maxBuffsize = c.head ↔ b.free = 0 := by
  rw [h.head, h.tail, tmod_next, Int.natCast_inj]
  exact next_tail_eq_head_iff b

theorem Represents.empty_iff (h : Represents c b) : c.head = c.tail ↔ b.contents = [] := by
  rw [h.head, h.tail, Int.natCast_inj]
  exact (contents_eq_nil_iff b).symm

theorem Represents.buffPush (h : Represents c b) (x : UInt8) :
    Represents (c.buffPush x.toInt8).1 (buffPush b x).1 ∧
      (c.buffPush x.toInt8).2 = if b.free = 0 then buffFull else buffNormal := by
  unfold CBuffer.buffPush Mcu.buffPush
  by_cases hfull : b.free = 0
  · rw [if_pos (h.full_iff.2 hfull), if_pos ((next_tail_eq_head_iff b).2 hfull), if_pos hfull]
    exact ⟨h, rfl⟩
  · rw [if_neg (mt h.full_iff.1 hfull), if_neg (mt (next_tail_eq_head_iff b).1 hfull),
      if_neg hfull]
    refine ⟨⟨h.head, ?_, ?_⟩, rfl⟩
    · show (c.tail + 1).tmod maxBuffsize = _
      rw [h.tail]
      exact tmod_next b.tail
    · intro i hi
      show (if (i : Int) = c.tail then x.toInt8 else c.data i).toUInt8 =
        if i = b.tail then x else b.data i
      have hcell : (i : Int) = c.tail ↔ i = b.tail := by rw [h.tail, Int.natCast_inj]
      simp only [hcell]
      split_ifs
      · exact UInt8.toUInt8_toInt8 x
      · exact h.data i hi

theorem Represents.buffPop (h : Represents c b) :
    Represents c.buffPop.1 (buffPop b).2 ∧ c.buffPop.2.toUInt8 = (buffPop b).1 := by
  unfold CBuffer.buffPop Mcu.buffPop
  by_cases hempty : b.contents = []
  · rw [if_pos (h.empty_iff.2 hempty), if_pos ((contents_eq_nil_iff b).1 hempty)]
    exact ⟨h, rfl⟩
  · rw [if_neg (mt h.empty_iff.1 hempty), if_neg (mt (contents_eq_nil_iff b).2 hempty)]
    refine ⟨⟨?_, h.tail, h.data⟩, ?_⟩
    · show (c.head + 1).tmod maxBuffsize = _
      rw [h.head]
      exact tmod_next b.head
    · show (c.data c.head).toUInt8 = b.data b.head
      rw [h.head]
      exact h.data b.head b.head_lt

end Represents

/-! ## The queue -/

theorem free_eq_zero_iff (b : Buffer) : b.free = 0 ↔ b.contents.length = 499 := by
  have hlt := contents_length_lt b
  unfold Buffer.free
  unfold maxBuffsize at *
  omega

/-- Every call is one on the queue. -/
theorem call_represents {c : CBuffer} {b : Buffer} (h : Represents c b) (x : Call UInt8) :
    ∃ b', Represents (c.call x).1 b' ∧ b'.contents = (BoundedQueue.step 499 b.contents x).1 ∧
      (c.call x).2 = returned (BoundedQueue.step 499 b.contents x).2 := by
  cases x with
  | push x =>
    obtain ⟨hnext, hcode⟩ := h.buffPush x
    refine ⟨_, hnext, ?_, ?_⟩
    · rw [buffPush_contents, BoundedQueue.step]
      simp only [free_eq_zero_iff]
      split_ifs <;> rfl
    · show Returned.code (c.buffPush x.toInt8).2 = _
      rw [hcode, BoundedQueue.step]
      simp only [free_eq_zero_iff]
      split_ifs <;> rfl
  | pop =>
    obtain ⟨hnext, hbyte⟩ := h.buffPop
    obtain ⟨htail, hhead⟩ := buffPop_contents b
    refine ⟨_, hnext, htail, ?_⟩
    show Returned.byte c.buffPop.2.toUInt8 = _
    rw [hbyte, hhead]
    rfl
  | status =>
    refine ⟨b, h, rfl, ?_⟩
    show Returned.code c.buffStatus = .code (levelCode (level 499 b.contents))
    unfold CBuffer.buffStatus level
    simp only [h.empty_iff, h.full_iff, free_eq_zero_iff, List.length_eq_zero_iff]
    split_ifs <;> rfl

/-- Every sequence of calls is one on the queue. -/
theorem calls_represents (data : Int → Int8) (cs : List (Call UInt8)) :
    ∃ b, Represents (CBuffer.after data cs) b ∧ b.contents = (BoundedQueue.run 499 cs).1 ∧
      CBuffer.returns data cs = (BoundedQueue.run 499 cs).2.map returned := by
  have hstep : ∀ (c : CBuffer) (q : List UInt8) (x : Call UInt8),
      (∃ b, Represents c b ∧ b.contents = q) →
        (∃ b, Represents (c.call x).1 b ∧ b.contents = (BoundedQueue.step 499 q x).1) ∧
          (c.call x).2 = returned (BoundedQueue.step 499 q x).2 := by
    rintro c q x ⟨b, hb, rfl⟩
    obtain ⟨b', hnext, hcontents, hreturned⟩ := call_represents hb x
    exact ⟨⟨b', hnext, hcontents⟩, hreturned⟩
  have hinit : ∃ b, Represents ⟨0, 0, data⟩ b ∧ b.contents = [] :=
    ⟨_, represents_init data, (contents_eq_nil_iff _).2 rfl⟩
  obtain ⟨⟨b, hb, hcontents⟩, hreturns⟩ := calls_simulates hstep hinit cs
  exact ⟨b, hb, hcontents, hreturns⟩

/-- What the functions do to a buffer. -/
structure CBuffer.Bounded (buff : CBuffer) : Prop where
  head : 0 ≤ buff.head ∧ buff.head ≤ 499
  tail : 0 ≤ buff.tail ∧ buff.tail ≤ 499
  length_le : buff.bytes.length ≤ 499
  refused : ∀ c, (buff.buffPush c).2 = buffFull ↔ buff.bytes.length = 499
  unchanged : ∀ c, (buff.buffPush c).1 = buff ↔ buff.bytes.length = 499
  popped : buff.buffPop.1 = buff ↔ buff.bytes = []
  status : buff.buffStatus =
    if buff.bytes = [] then buffEmpty
    else if buff.bytes.length = 499 then buffFull
    else buffNormal

/-- The next index is another one. -/
theorem next_ne (i : Nat) : ((i : Int) + 1).tmod maxBuffsize ≠ i := by
  rw [tmod_next, ne_eq, Int.natCast_inj]
  unfold maxBuffsize
  omega

theorem Represents.full_iff_length {c : CBuffer} {b : Buffer} (h : Represents c b) :
    (c.tail + 1).tmod maxBuffsize = c.head ↔ c.bytes.length = 499 := by
  rw [h.full_iff, free_eq_zero_iff, h.bytes_eq]

theorem Represents.bounded {c : CBuffer} {b : Buffer} (h : Represents c b) : c.Bounded where
  head := h.inside.1
  tail := h.inside.2
  length_le := by
    have hlt := contents_length_lt b
    unfold maxBuffsize at hlt
    rw [h.bytes_eq]
    omega
  refused := by
    intro x
    rw [← h.full_iff_length, CBuffer.buffPush]
    split_ifs with hfull
    · exact iff_of_true rfl hfull
    · exact iff_of_false (show buffNormal ≠ buffFull by decide) hfull
  unchanged := by
    intro x
    rw [← h.full_iff_length, CBuffer.buffPush]
    split_ifs with hfull
    · exact iff_of_true rfl hfull
    · refine iff_of_false ?_ hfull
      intro hsame
      have htail := congrArg CBuffer.tail hsame
      dsimp only at htail
      rw [h.tail] at htail
      exact next_ne b.tail htail
  popped := by
    rw [h.bytes_eq, ← h.empty_iff, CBuffer.buffPop]
    split_ifs with hempty
    · exact iff_of_true rfl hempty
    · refine iff_of_false ?_ hempty
      intro hsame
      have hhead := congrArg CBuffer.head hsame
      dsimp only at hhead
      rw [h.head] at hhead
      exact next_ne b.head hhead
  status := by
    unfold CBuffer.buffStatus
    simp only [h.full_iff_length, h.empty_iff, h.bytes_eq]

/-- Behind every sequence of calls the buffer is bounded, holds what a queue of
499 bytes holds, and has returned what that queue answered.  The bytes that were
accepted are those that came out and those that are still stored, in order. -/
theorem buffer_boundedFifo (data : Int → Int8) (cs : List (Call UInt8)) :
    (CBuffer.after data cs).Bounded ∧
      (CBuffer.after data cs).bytes = (BoundedQueue.run 499 cs).1 ∧
      CBuffer.returns data cs = (BoundedQueue.run 499 cs).2.map returned ∧
      accepted (cs.zip (BoundedQueue.run 499 cs).2) =
        delivered (BoundedQueue.run 499 cs).2 ++ (CBuffer.after data cs).bytes := by
  obtain ⟨b, hb, hcontents, hreturns⟩ := calls_represents data cs
  have hbytes : (CBuffer.after data cs).bytes = (BoundedQueue.run 499 cs).1 :=
    hb.bytes_eq.trans hcontents
  refine ⟨hb.bounded, hbytes, hreturns, ?_⟩
  rw [hbytes]
  exact conserves 499 cs

end MinotaurRobot.Mcu
