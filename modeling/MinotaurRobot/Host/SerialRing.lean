import MinotaurRobot.Lib.Ring

/-!
# The serial ring buffer of the host

`minos_buffer` with its two indices, and the call of `read` at the top of
`Minotaur::recv`.  The call asks for the cells from `minos_buffer_end` up to
the end of the array, whether or not they are free.

`takeIn_contents` is the specification of a read that fits: it appends the
block to the unread bytes.  `takeIn_keeps_iff` says when a read fits: the
unread bytes and the block together are at most 79.  A ring that is filled
to 80 bytes has equal indices and counts as empty, and the overrun test of
the code does not report it (`overrun_iff`).
-/

namespace MinotaurRobot.Host

open Lib

/-- `sizeof(minos_buffer)`. -/
def bufferSize : Nat := 80

/-- `minos_buffer`, `minos_buffer_start` and `minos_buffer_end`.  Both indices
stay inside the array. -/
structure SerialRing where
  data : Nat → UInt8
  start : Nat
  stop : Nat
  start_lt : start < bufferSize
  stop_lt : stop < bufferSize

/-- The ring that the constructor of `Minotaur` sets up. -/
def SerialRing.init : SerialRing where
  data := fun _ => 0
  start := 0
  stop := 0
  start_lt := by decide
  stop_lt := by decide

private theorem index_lt (i : Nat) : i % bufferSize < bufferSize := Nat.mod_lt _ (by decide)

/-- `(minos_buffer_end - minos_buffer_start + sizeof(minos_buffer)) %
sizeof(minos_buffer)`. -/
def SerialRing.unread (b : SerialRing) : Nat := Ring.fill bufferSize b.start b.stop

/-- The unread bytes, oldest first. -/
def SerialRing.contents (b : SerialRing) : List UInt8 :=
  Ring.window bufferSize b.data b.start b.unread

/-- Move `minos_buffer_start` over `k` cells. -/
def SerialRing.advance (b : SerialRing) (k : Nat) : SerialRing :=
  { b with start := (b.start + k) % bufferSize, start_lt := index_lt _ }

theorem contents_length (b : SerialRing) : b.contents.length = b.unread := Ring.window_length ..

theorem unread_lt (b : SerialRing) : b.unread < bufferSize := Ring.fill_lt b.start_lt

theorem contents_init : SerialRing.init.contents = [] := rfl

theorem unread_eq_zero_iff (b : SerialRing) : b.unread = 0 ↔ b.start = b.stop :=
  Ring.fill_eq_zero_iff b.start_lt b.stop_lt

/-- Moving the start over unread bytes drops them. -/
theorem advance_contents {b : SerialRing} {k : Nat} (hk : k ≤ b.unread) :
    (b.advance k).contents = b.contents.drop k := by
  rw [SerialRing.contents, SerialRing.contents, Ring.window_drop]
  rw [SerialRing.unread] at hk
  simp only [SerialRing.advance, SerialRing.unread]
  rw [Ring.fill_start_add b.start_lt b.stop_lt hk]

/-- The unread bytes by index. -/
theorem contents_getElem? {b : SerialRing} {i : Nat} (hi : i < b.unread) :
    b.contents[i]? = some (b.data ((b.start + i) % bufferSize)) :=
  Ring.window_getElem? b.data hi

/-! ## Reading from the serial port -/

/-- The third argument of `read`. -/
def SerialRing.requestSize (b : SerialRing) : Nat :=
  (bufferSize * 2 - b.stop - 1) % bufferSize + 1

theorem requestSize_eq (b : SerialRing) : b.requestSize = bufferSize - b.stop := by
  have h := b.stop_lt
  rw [SerialRing.requestSize, bufferSize] at *
  omega

/-- One call of `read`: the bytes it stores, none for a result of `0` or `-1`,
and whether `errno` equals `EWOULDBLOCK` behind it.  A call that succeeds
leaves `errno` as it was. -/
structure ReadCall where
  block : List UInt8
  wouldBlock : Bool
  deriving DecidableEq, Repr

/-- The test for a buffer overrun.  It only prints. -/
def SerialRing.overrun (b : SerialRing) (cnt : Nat) : Bool :=
  (b.start + bufferSize - b.stop) % bufferSize < cnt && b.start != b.stop

/-- `recv` up to the update of `minos_buffer_end`.  The flag is false where
`recv` returns at once. -/
def SerialRing.takeIn (b : SerialRing) (call : ReadCall) : SerialRing × Bool :=
  let b := { b with data := Ring.writeBlock b.data b.stop call.block }
  if call.wouldBlock then (b, false)
  else if call.block.length = 0 then (b, false)
  else
    ({ b with
        stop := (b.stop + call.block.length) % bufferSize
        stop_lt := index_lt _ }, true)

/-- The unread count behind a read, which counts modulo the size of the
ring. -/
theorem takeIn_unread {b : SerialRing} {call : ReadCall} (hblock : call.wouldBlock = false) :
    (b.takeIn call).1.unread = (b.unread + call.block.length) % bufferSize := by
  rw [SerialRing.takeIn, hblock]
  by_cases hzero : call.block.length = 0
  · rw [if_neg (by decide), if_pos hzero, hzero, Nat.add_zero, Nat.mod_eq_of_lt (unread_lt b)]
    rfl
  · rw [if_neg (by decide), if_neg hzero]
    exact Ring.fill_stop_add b.start_lt b.stop_lt _

/-- A read that fits appends its block to the unread bytes. -/
theorem takeIn_contents {b : SerialRing} {call : ReadCall} (hblock : call.wouldBlock = false)
    (hrequest : call.block.length ≤ b.requestSize)
    (hroom : b.unread + call.block.length < bufferSize) :
    (b.takeIn call).1.contents = b.contents ++ call.block := by
  have hpos : b.stop = (b.start + b.unread) % bufferSize :=
    (Ring.start_add_fill b.start_lt b.stop_lt).symm
  have hfit : b.stop + call.block.length ≤ bufferSize := by
    have := b.stop_lt
    rw [requestSize_eq] at hrequest
    omega
  have hwindow := Ring.window_writeBlock b.data hpos hfit (by omega)
  have hunread := takeIn_unread (b := b) hblock
  rw [Nat.mod_eq_of_lt hroom] at hunread
  rw [SerialRing.contents, hunread, SerialRing.contents, ← hwindow, SerialRing.takeIn, hblock]
  by_cases hzero : call.block.length = 0
  · rw [if_neg (by decide), if_pos hzero]
  · rw [if_neg (by decide), if_neg hzero]

/-- The overrun test reports a read exactly if the unread bytes and the block
do not fit into the array together.  A read that fills the array exactly, and
so makes the ring look empty, is not reported. -/
theorem overrun_iff {b : SerialRing} {cnt : Nat} (hrequest : cnt ≤ b.requestSize) :
    b.overrun cnt = true ↔ bufferSize < b.unread + cnt := by
  have hs := b.start_lt
  have he := b.stop_lt
  rw [requestSize_eq] at hrequest
  rw [SerialRing.overrun, Bool.and_eq_true, decide_eq_true_eq, bne_iff_ne, SerialRing.unread]
  rw [bufferSize] at *
  rcases Ring.fill_cases hs he with ⟨h, hf⟩ | ⟨h, hf⟩ <;> omega

/-- No unread byte is lost by a read, and the unread count grows by the size
of the block, exactly if `errno` does not stop `recv` and the ring keeps one
cell free. -/
theorem takeIn_keeps_iff {b : SerialRing} {call : ReadCall} (hpos : 0 < call.block.length)
    (hrequest : call.block.length ≤ b.requestSize) :
    (b.contents <+: (b.takeIn call).1.contents ∧
        (b.takeIn call).1.unread = b.unread + call.block.length) ↔
      call.wouldBlock = false ∧ b.unread + call.block.length ≤ 79 := by
  constructor
  · rintro ⟨-, hcount⟩
    have hlt := unread_lt (b.takeIn call).1
    cases hblock : call.wouldBlock with
    | true =>
      have hsame : (b.takeIn call).1.unread = b.unread := by
        rw [SerialRing.takeIn, hblock]
        rfl
      omega
    | false =>
      rw [hcount, bufferSize] at hlt
      exact ⟨rfl, by omega⟩
  · rintro ⟨hblock, hroom⟩
    have hlt : b.unread + call.block.length < bufferSize := by
      unfold bufferSize
      omega
    rw [takeIn_contents hblock hrequest hlt, takeIn_unread hblock, Nat.mod_eq_of_lt hlt]
    exact ⟨List.prefix_append .., rfl⟩

/-- A read of 79 bytes into the empty ring loses nothing. -/
theorem takeIn_keeps_long :
    (SerialRing.init.takeIn ⟨List.replicate 79 0xAA, false⟩).1.unread = 79 := by
  have hlen : (ReadCall.mk (List.replicate 79 0xAA) false).block.length = 79 :=
    List.length_replicate
  have hpos : 0 < (ReadCall.mk (List.replicate 79 0xAA) false).block.length := by omega
  have hrequest : (ReadCall.mk (List.replicate 79 0xAA) false).block.length ≤
      SerialRing.init.requestSize := by
    rw [hlen]
    decide
  have h := (takeIn_keeps_iff hpos hrequest).2 ⟨rfl, by rw [hlen]; decide⟩
  rw [h.2, hlen]
  rfl

/-- The first read asks for 80 bytes, and if it gets them it loses them all
without a report. -/
theorem takeIn_full_read_lost :
    let call : ReadCall := ⟨List.replicate 80 0xAA, false⟩
    SerialRing.init.requestSize = 80 ∧ SerialRing.init.overrun 80 = false ∧
      (SerialRing.init.takeIn call).1.unread = 0 ∧
      ¬(SerialRing.init.contents <+: (SerialRing.init.takeIn call).1.contents ∧
        (SerialRing.init.takeIn call).1.unread =
          SerialRing.init.unread + call.block.length) := by
  intro call
  have hlen : call.block.length = 80 := List.length_replicate
  have hlost : (SerialRing.init.takeIn call).1.unread = 0 := by
    rw [takeIn_unread rfl, hlen]
    rfl
  refine ⟨by decide, by decide, hlost, ?_⟩
  rintro ⟨-, hcount⟩
  rw [hlost, hlen] at hcount
  omega

end MinotaurRobot.Host
