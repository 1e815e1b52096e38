import Mathlib.Tactic.Common
import Mathlib.Data.Nat.ModEq

/-!
# Windows of a ring of cells

A ring buffer of `n` cells keeps its live elements in the cells
`start, start + 1, ...` taken modulo `n`.  `window n cells start len` reads
them off in order, `fill n start stop` is their number when the buffer
stores the two end points, and `writeBlock cells pos block` is a write of
consecutive cells that does not cross the end of the array.

The two results every user needs are `window_writeBlock`, a write right
behind the window extends it, and `window_succ`, the first cell leaves it.
-/

namespace MinotaurRobot.Lib.Ring

variable {α : Type}

/-- The `len` elements from cell `start` on, in ring order. -/
def window (n : Nat) (cells : Nat → α) (start len : Nat) : List α :=
  (List.range len).map fun i => cells ((start + i) % n)

/-- The number of elements between two end points of a ring of `n` cells. -/
def fill (n start stop : Nat) : Nat := (stop + n - start) % n

/-- Store `block` in the cells `pos, pos + 1, ...`. -/
def writeBlock (cells : Nat → α) (pos : Nat) (block : List α) : Nat → α :=
  fun j => if pos ≤ j then (block[j - pos]?).getD (cells j) else cells j

/-! ## Reading a window -/

@[simp] theorem window_length (n : Nat) (cells : Nat → α) (start len : Nat) :
    (window n cells start len).length = len := by
  simp [window]

@[simp] theorem window_zero (n : Nat) (cells : Nat → α) (start : Nat) :
    window n cells start 0 = [] := rfl

/-- The start of a window counts modulo the size of the ring. -/
theorem window_mod (n : Nat) (cells : Nat → α) (start len : Nat) :
    window n cells (start % n) len = window n cells start len := by
  simp [window, Nat.mod_add_mod]

/-- A window splits at any of its elements. -/
theorem window_add (n : Nat) (cells : Nat → α) (start a b : Nat) :
    window n cells start (a + b) =
      window n cells start a ++ window n cells (start + a) b := by
  rw [window, window, window, List.range_add, List.map_append, List.map_map]
  congr 1
  refine List.map_congr_left fun i _ => ?_
  rw [Function.comp, Nat.add_assoc]

/-- The first element of a window, and the window behind it. -/
theorem window_succ (n : Nat) (cells : Nat → α) (start len : Nat) :
    window n cells start (len + 1) =
      cells (start % n) :: window n cells ((start + 1) % n) len := by
  rw [Nat.add_comm, window_add, window_mod]
  rfl

/-- A window depends on its own cells only. -/
theorem window_congr {n start len : Nat} {cells cells' : Nat → α}
    (h : ∀ i, i < len → cells ((start + i) % n) = cells' ((start + i) % n)) :
    window n cells start len = window n cells' start len :=
  List.map_congr_left fun i hi => h i (List.mem_range.1 hi)

/-- Dropping elements moves the start of the window. -/
theorem window_drop (n : Nat) (cells : Nat → α) (start len k : Nat) :
    (window n cells start len).drop k =
      window n cells ((start + k) % n) (len - k) := by
  rcases Nat.le_total k len with hk | hk
  · obtain ⟨rest, rfl⟩ := Nat.exists_eq_add_of_le hk
    rw [window_add, List.drop_left' (window_length n cells start k),
      window_mod, Nat.add_sub_cancel_left]
  · rw [List.drop_eq_nil_of_le (by rw [window_length]; exact hk),
      Nat.sub_eq_zero_of_le hk, window_zero]

/-- The elements of a window, by index. -/
theorem window_getElem? {n start len i : Nat} (cells : Nat → α) (hi : i < len) :
    (window n cells start len)[i]? = some (cells ((start + i) % n)) := by
  simp [window, List.getElem?_map, List.getElem?_range hi]

/-! ## Writing behind a window -/

theorem writeBlock_before {cells : Nat → α} {pos j : Nat} {block : List α}
    (h : j < pos ∨ pos + block.length ≤ j) :
    writeBlock cells pos block j = cells j := by
  unfold writeBlock
  split
  · rename_i hle
    rw [List.getElem?_eq_none (by omega)]
    rfl
  · rfl

theorem writeBlock_at {cells : Nat → α} {pos i : Nat} {block : List α} {b : α}
    (h : block[i]? = some b) : writeBlock cells pos block (pos + i) = b := by
  rw [writeBlock, if_pos (Nat.le_add_right pos i), Nat.add_sub_cancel_left, h]
  rfl

/-- The cells just written read back as the block. -/
theorem window_writeBlock_new {n : Nat} (cells : Nat → α) {pos : Nat}
    {block : List α} (hfit : pos + block.length ≤ n) :
    window n (writeBlock cells pos block) pos block.length = block := by
  refine List.ext_getElem? fun i => ?_
  rcases Nat.lt_or_ge i block.length with hi | hi
  · rw [window_getElem? _ hi, Nat.mod_eq_of_lt (by omega),
      writeBlock_at (List.getElem?_eq_getElem hi), List.getElem?_eq_getElem hi]
  · rw [List.getElem?_eq_none (by rw [window_length]; exact hi),
      List.getElem?_eq_none hi]

/-- Two different offsets below the size of the ring name two cells. -/
theorem mod_ne_of_lt {n a b : Nat} (hab : a < b) (hlt : b < a + n) :
    a % n ≠ b % n := by
  intro he
  have hdvd : n ∣ b - a := (Nat.modEq_iff_dvd' hab.le).1 he
  have := Nat.le_of_dvd (by omega) hdvd
  omega

/-- A block that starts right behind a window and does not lap it leaves
the window alone. -/
theorem window_writeBlock_old {n start len pos : Nat} (cells : Nat → α)
    {block : List α} (hpos : pos = (start + len) % n)
    (hfit : pos + block.length ≤ n) (hroom : len + block.length ≤ n) :
    window n (writeBlock cells pos block) start len =
      window n cells start len := by
  refine window_congr fun i hi => writeBlock_before ?_
  by_contra hin
  have hcell : (start + i) % n = (pos + ((start + i) % n - pos)) % n := by
    have hlt : (start + i) % n < n := by omega
    rw [Nat.add_sub_cancel' (by omega), Nat.mod_mod]
  rw [hpos, Nat.mod_add_mod] at hcell
  exact mod_ne_of_lt (by omega) (by omega) hcell

/-- A write right behind a window extends the window by the block. -/
theorem window_writeBlock {n start len pos : Nat} (cells : Nat → α)
    {block : List α} (hpos : pos = (start + len) % n)
    (hfit : pos + block.length ≤ n) (hroom : len + block.length ≤ n) :
    window n (writeBlock cells pos block) start (len + block.length) =
      window n cells start len ++ block := by
  rw [window_add, window_writeBlock_old cells hpos hfit hroom,
    ← window_mod n _ (start + len), ← hpos, window_writeBlock_new cells hfit]

/-! ## The fill level -/

section Fill

variable {n start stop : Nat}

theorem fill_lt (hstart : start < n) : fill n start stop < n :=
  Nat.mod_lt _ (by omega)

/-- The fill level in the two layouts a window can have. -/
theorem fill_cases (hstart : start < n) (hstop : stop < n) :
    (start ≤ stop ∧ fill n start stop = stop - start) ∨
      (stop < start ∧ fill n start stop = stop + n - start) := by
  unfold fill
  rcases Nat.lt_or_ge stop start with h | h
  · exact Or.inr ⟨h, Nat.mod_eq_of_lt (by omega)⟩
  · refine Or.inl ⟨h, ?_⟩
    rw [show stop + n - start = stop - start + n by omega, Nat.add_mod_right,
      Nat.mod_eq_of_lt (by omega)]

/-- The end point lies `fill` cells behind the start. -/
theorem start_add_fill (hstart : start < n) (hstop : stop < n) :
    (start + fill n start stop) % n = stop := by
  rcases fill_cases hstart hstop with ⟨h, hf⟩ | ⟨h, hf⟩
  · rw [hf, Nat.add_sub_cancel' h, Nat.mod_eq_of_lt hstop]
  · rw [hf, show start + (stop + n - start) = stop + n by omega,
      Nat.add_mod_right, Nat.mod_eq_of_lt hstop]

theorem fill_eq_zero_iff (hstart : start < n) (hstop : stop < n) :
    fill n start stop = 0 ↔ start = stop := by
  rcases fill_cases hstart hstop with ⟨h, hf⟩ | ⟨h, hf⟩ <;> omega

/-- The fill level is the only offset below the size that leads from the
start to the end point. -/
theorem fill_eq_of_add {a : Nat} (hstart : start < n) (ha : a < n)
    (h : (start + a) % n = stop) : fill n start stop = a := by
  have hstop : stop < n := by
    rw [← h]
    exact Nat.mod_lt _ (by omega)
  have hsame : (start + fill n start stop) % n = (start + a) % n := by
    rw [start_add_fill hstart hstop, h]
  have hmod := Nat.ModEq.add_left_cancel' start hsame
  rwa [Nat.ModEq, Nat.mod_eq_of_lt (fill_lt hstart), Nat.mod_eq_of_lt ha] at hmod

/-- Moving the end point adds to the fill level, modulo the size. -/
theorem fill_stop_add (hstart : start < n) (hstop : stop < n) (k : Nat) :
    fill n start ((stop + k) % n) = (fill n start stop + k) % n := by
  refine fill_eq_of_add hstart (Nat.mod_lt _ (by omega)) ?_
  rw [Nat.add_mod_mod, ← Nat.add_assoc, ← Nat.mod_add_mod,
    start_add_fill hstart hstop]

/-- Moving the start over live elements takes them off the fill level. -/
theorem fill_start_add {k : Nat} (hstart : start < n) (hstop : stop < n)
    (hk : k ≤ fill n start stop) :
    fill n ((start + k) % n) stop = fill n start stop - k := by
  have hf : fill n start stop < n := fill_lt hstart
  refine fill_eq_of_add (Nat.mod_lt _ (by omega)) (by omega) ?_
  rw [Nat.mod_add_mod, show start + k + (fill n start stop - k) =
    start + fill n start stop by omega, start_add_fill hstart hstop]

end Fill

end MinotaurRobot.Lib.Ring
