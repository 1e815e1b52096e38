import MinotaurRobot.Lib.Ring

/-!
# The circular byte buffer of the microcontroller

`BUFF_push`, `BUFF_pop` and `BUFF_status` of `UARTfunctions.c`, on the
`BUFFER` of `minotaur.h`.  The buffer has `MAX_BUFFSIZE` cells and holds one
byte less, because `head == tail` means empty.

`Buffer.contents` reads a buffer as the list of its bytes, oldest first.
The three specification lemmas `buffPush_contents`, `buffPop_contents` and
`buffStatus_cases` say what the functions do to that list.  Every later
proof uses them and never the cells.

A byte is a `UInt8` throughout.  The C code stores `char`, and both callers
of `BUFF_pop` in `main.c` convert the result to `unsigned char`.
-/

namespace MinotaurRobot.Mcu

open Lib

/-- `MAX_BUFFSIZE`. -/
def maxBuffsize : Nat := 500

/-- The status codes `BUFF_FULL`, `BUFF_EMPTY` and `BUFF_NORMAL`. -/
inductive BuffStatus where
  | full
  | empty
  | normal
  deriving DecidableEq, Repr

/-- `BUFFER`.  Both indices stay inside the array. -/
structure Buffer where
  head : Nat
  tail : Nat
  data : Nat → UInt8
  head_lt : head < maxBuffsize
  tail_lt : tail < maxBuffsize

/-- The buffer after `head = 0` and `tail = 0` at the top of `main`. -/
def Buffer.init : Buffer where
  head := 0
  tail := 0
  data := fun _ => 0
  head_lt := by decide
  tail_lt := by decide

private theorem next_lt (i : Nat) : (i + 1) % maxBuffsize < maxBuffsize :=
  Nat.mod_lt _ (by decide)

/-- `BUFF_push`. -/
def buffPush (buff : Buffer) (c : UInt8) : Buffer × BuffStatus :=
  if (buff.tail + 1) % maxBuffsize = buff.head then
    (buff, .full)
  else
    ({ buff with
        data := fun j => if j = buff.tail then c else buff.data j
        tail := (buff.tail + 1) % maxBuffsize
        tail_lt := next_lt buff.tail }, .normal)

/-- `BUFF_pop`.  On an empty buffer it returns `BUFF_EMPTY`, which is `0xFF`
as a byte. -/
def buffPop (buff : Buffer) : UInt8 × Buffer :=
  if buff.head = buff.tail then
    (0xFF, buff)
  else
    (buff.data buff.head,
      { buff with
          head := (buff.head + 1) % maxBuffsize
          head_lt := next_lt buff.head })

/-- `BUFF_status`. -/
def buffStatus (buff : Buffer) : BuffStatus :=
  if buff.head = buff.tail then .empty
  else if (buff.tail + 1) % maxBuffsize = buff.head then .full
  else .normal

/-! ## The bytes of a buffer -/

/-- The stored bytes, oldest first. -/
def Buffer.contents (buff : Buffer) : List UInt8 :=
  Ring.window maxBuffsize buff.data buff.head
    (Ring.fill maxBuffsize buff.head buff.tail)

/-- The number of bytes the buffer still takes. -/
def Buffer.free (buff : Buffer) : Nat := maxBuffsize - 1 - buff.contents.length

theorem contents_length (buff : Buffer) :
    buff.contents.length = Ring.fill maxBuffsize buff.head buff.tail :=
  Ring.window_length ..

theorem contents_length_lt (buff : Buffer) : buff.contents.length < maxBuffsize := by
  rw [contents_length]
  exact Ring.fill_lt buff.head_lt

theorem contents_init : Buffer.init.contents = [] := rfl

theorem contents_eq_nil_iff (buff : Buffer) :
    buff.contents = [] ↔ buff.head = buff.tail := by
  rw [← List.length_eq_zero_iff, contents_length]
  exact Ring.fill_eq_zero_iff buff.head_lt buff.tail_lt

/-- The test of `BUFF_push` and `BUFF_status` for a full buffer holds exactly
when no room is left. -/
theorem next_tail_eq_head_iff (buff : Buffer) :
    (buff.tail + 1) % maxBuffsize = buff.head ↔ buff.free = 0 := by
  have hh := buff.head_lt
  have ht := buff.tail_lt
  have hlen := contents_length_lt buff
  rw [Buffer.free, contents_length] at *
  rw [maxBuffsize] at *
  rcases Ring.fill_cases hh ht with ⟨h, hf⟩ | ⟨h, hf⟩ <;> omega

/-- `BUFF_push` appends the byte, or drops it when no room is left. -/
theorem buffPush_contents (buff : Buffer) (c : UInt8) :
    (buffPush buff c).1.contents =
      if buff.free = 0 then buff.contents else buff.contents ++ [c] := by
  unfold buffPush
  by_cases hfull : buff.free = 0
  · rw [if_pos ((next_tail_eq_head_iff buff).2 hfull), if_pos hfull]
  · rw [if_neg (mt (next_tail_eq_head_iff buff).1 hfull), if_neg hfull]
    have hlen := contents_length_lt buff
    rw [Buffer.free, contents_length] at hfull
    rw [contents_length] at hlen
    have hcell : (fun j => if j = buff.tail then c else buff.data j) =
        Ring.writeBlock buff.data buff.tail [c] := by
      funext j
      rcases Nat.lt_trichotomy j buff.tail with h | h | h
      · rw [if_neg (by omega), Ring.writeBlock_before (Or.inl h)]
      · rw [if_pos h, h]
        exact (Ring.writeBlock_at (i := 0) rfl).symm
      · rw [if_neg (by omega), Ring.writeBlock_before (Or.inr h)]
    simp only [Buffer.contents]
    rw [hcell, Ring.fill_stop_add buff.head_lt buff.tail_lt,
      Nat.mod_eq_of_lt (by omega)]
    exact Ring.window_writeBlock buff.data
      (Ring.start_add_fill buff.head_lt buff.tail_lt).symm buff.tail_lt
      (by rw [List.length_singleton]; omega)

/-- `BUFF_pop` takes the oldest byte off the buffer. -/
theorem buffPop_contents (buff : Buffer) :
    (buffPop buff).2.contents = buff.contents.tail ∧
      (buffPop buff).1 = buff.contents.head?.getD 0xFF := by
  unfold buffPop
  by_cases hempty : buff.head = buff.tail
  · rw [if_pos hempty, (contents_eq_nil_iff buff).2 hempty]
    exact ⟨rfl, rfl⟩
  · rw [if_neg hempty]
    have hfill : Ring.fill maxBuffsize buff.head buff.tail ≠ 0 :=
      mt (Ring.fill_eq_zero_iff buff.head_lt buff.tail_lt).1 hempty
    obtain ⟨len, hlen⟩ := Nat.exists_eq_succ_of_ne_zero hfill
    have hcons : buff.contents = buff.data buff.head ::
        Ring.window maxBuffsize buff.data ((buff.head + 1) % maxBuffsize) len := by
      rw [Buffer.contents, hlen, Ring.window_succ, Nat.mod_eq_of_lt buff.head_lt]
    rw [hcons]
    refine ⟨?_, rfl⟩
    simp only [Buffer.contents, List.tail_cons]
    rw [Ring.fill_start_add buff.head_lt buff.tail_lt (by omega), hlen]
    rfl

/-- `BUFF_status` tells the empty and the full buffer from all others. -/
theorem buffStatus_cases (buff : Buffer) :
    (buffStatus buff = .empty ∧ buff.contents = []) ∨
      (buffStatus buff = .full ∧ buff.contents ≠ [] ∧ buff.free = 0) ∨
      (buffStatus buff = .normal ∧ buff.contents ≠ [] ∧ buff.free ≠ 0) := by
  rw [buffStatus, ne_eq, contents_eq_nil_iff]
  split_ifs with hempty hfull
  · exact Or.inl ⟨rfl, hempty⟩
  · exact Or.inr (Or.inl ⟨rfl, hempty, (next_tail_eq_head_iff buff).1 hfull⟩)
  · exact Or.inr (Or.inr ⟨rfl, hempty, mt (next_tail_eq_head_iff buff).2 hfull⟩)

theorem buffStatus_eq_empty_iff (buff : Buffer) :
    buffStatus buff = .empty ↔ buff.contents = [] := by
  rcases buffStatus_cases buff with ⟨h, hc⟩ | ⟨h, hc, _⟩ | ⟨h, hc, _⟩ <;> simp [h, hc]

/-- The buffer reports full exactly when no room is left. -/
theorem buffStatus_eq_full_iff (buff : Buffer) :
    buffStatus buff = .full ↔ buff.free = 0 := by
  rcases buffStatus_cases buff with ⟨h, hc⟩ | ⟨h, _, hf⟩ | ⟨h, _, hf⟩
  · simp [h, Buffer.free, hc, maxBuffsize]
  · simp [h, hf]
  · simp [h, hf]

/-! ## Several pushes in a row -/

/-- Push the bytes of a list one after the other. -/
def pushAll (buff : Buffer) (bytes : List UInt8) : Buffer :=
  bytes.foldl (fun b c => (buffPush b c).1) buff

theorem pushAll_nil (buff : Buffer) : pushAll buff [] = buff := rfl

theorem pushAll_append (buff : Buffer) (xs ys : List UInt8) :
    pushAll buff (xs ++ ys) = pushAll (pushAll buff xs) ys :=
  List.foldl_append

/-- A row of pushes keeps the bytes that fit and drops the rest. -/
theorem pushAll_contents (buff : Buffer) (bytes : List UInt8) :
    (pushAll buff bytes).contents = buff.contents ++ bytes.take buff.free := by
  induction bytes generalizing buff with
  | nil => simp [pushAll]
  | cons c bytes ih =>
    have hpush := buffPush_contents buff c
    rw [pushAll, List.foldl_cons, ← pushAll, ih, Buffer.free, hpush]
    by_cases hfull : buff.free = 0
    · rw [if_pos hfull, hfull, List.take_zero, ← Buffer.free, hfull, List.take_zero]
    · rw [if_neg hfull, List.length_append, List.length_singleton]
      obtain ⟨k, hk⟩ := Nat.exists_eq_succ_of_ne_zero hfull
      have hroom : maxBuffsize - 1 - (buff.contents.length + 1) = k := by
        rw [Buffer.free] at hk
        omega
      rw [hroom, hk, List.take_succ_cons, List.append_assoc, List.singleton_append]

/-- The room left after a row of pushes. -/
theorem pushAll_free (buff : Buffer) (bytes : List UInt8) :
    (pushAll buff bytes).free = buff.free - bytes.length := by
  have hlen := contents_length_lt buff
  rw [Buffer.free, pushAll_contents, List.length_append, List.length_take, Buffer.free]
  omega

end MinotaurRobot.Mcu
