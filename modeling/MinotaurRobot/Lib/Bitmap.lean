import Mathlib.Data.List.Basic
import MinotaurRobot.Lib.StructFormat

/-!
# Bitmap files

A reader of uncompressed bitmaps with 24 bits a pixel.  The rows stand in the
file from the bottom to the top, the bytes of a pixel from blue to red, and a
row is filled up to a multiple of four bytes.

`read_written` is the round trip: behind a header that is right about the
picture, the rows are read back.
-/

namespace MinotaurRobot.Lib.Bitmap

open StructFormat

structure Rgb where
  red : UInt8
  green : UInt8
  blue : UInt8
  deriving DecidableEq, Repr

/-- The number at an offset. -/
def word (file : List UInt8) (offset size : ℕ) : ℕ := leValue ((file.drop offset).take size)

/-- The bytes of a row in a file. -/
def stride (width : ℕ) : ℕ := (3 * width + 3) / 4 * 4

/-- The header of a bitmap whose pixels follow at once. -/
structure Header (width height : ℕ) (header : List UInt8) : Prop where
  length : header.length = 54
  magic : header.take 2 = [0x42, 0x4D]
  fileSize : word header 2 4 = 54 + stride width * height
  offset : word header 10 4 = 54
  infoSize : word header 14 4 = 40
  columns : word header 18 4 = width
  lines : word header 22 4 = height
  -- a height with the top bit is negative: the rows go from top to bottom
  fromBottom : height < 2 ^ 31
  planes : word header 26 2 = 1
  bits : word header 28 2 = 24
  compression : word header 30 4 = 0

instance (width height : ℕ) (header : List UInt8) : Decidable (Header width height header) :=
  decidable_of_iff
    (header.length = 54 ∧ header.take 2 = [0x42, 0x4D] ∧
      word header 2 4 = 54 + stride width * height ∧ word header 10 4 = 54 ∧
      word header 14 4 = 40 ∧ word header 18 4 = width ∧ word header 22 4 = height ∧
      height < 2 ^ 31 ∧ word header 26 2 = 1 ∧ word header 28 2 = 24 ∧ word header 30 4 = 0)
    ⟨fun ⟨h1, h2, h3, h4, h5, h6, h7, h8, h9, h10, h11⟩ => ⟨h1, h2, h3, h4, h5, h6, h7, h8, h9,
      h10, h11⟩, fun h => ⟨h.1, h.2, h.3, h.4, h.5, h.6, h.7, h.8, h.9, h.10, h.11⟩⟩

/-! ## Reading and writing -/

/-- The pixels of a row. -/
def readRow : ℕ → List UInt8 → List Rgb
  | width + 1, blue :: green :: red :: bytes => ⟨red, green, blue⟩ :: readRow width bytes
  | _, _ => []

/-- The rows of a bitmap, from the top. -/
def read (file : List UInt8) : Option (List (List Rgb)) :=
  let offset := word file 10 4
  let width := word file 18 4
  let height := word file 22 4
  if file.take 2 = [0x42, 0x4D] ∧ word file 2 4 = file.length ∧ word file 14 4 = 40 ∧
      height < 2 ^ 31 ∧ word file 26 2 = 1 ∧ word file 28 2 = 24 ∧ word file 30 4 = 0 ∧
      offset + stride width * height ≤ file.length then
    some ((List.range height).map fun row =>
      readRow width (file.drop (offset + stride width * (height - 1 - row))))
  else none

/-- The bytes of a row. -/
def rowBytes (row : List Rgb) : List UInt8 :=
  row.flatMap (fun p => [p.blue, p.green, p.red]) ++
    List.replicate (stride row.length - 3 * row.length) 0

/-- The bytes behind the header. -/
def pixels (rows : List (List Rgb)) : List UInt8 := rows.reverse.flatMap rowBytes

/-! ## The round trip -/

theorem length_colors (row : List Rgb) :
    (row.flatMap fun p => [p.blue, p.green, p.red]).length = 3 * row.length := by
  induction row with
  | nil => rfl
  | cons p row ih =>
    rw [List.flatMap_cons, List.length_append, ih]
    show 3 + 3 * row.length = 3 * (row.length + 1)
    omega

theorem length_rowBytes (row : List Rgb) : (rowBytes row).length = stride row.length := by
  have hroom : 3 * row.length ≤ stride row.length := by
    unfold stride
    omega
  rw [rowBytes, List.length_append, length_colors, List.length_replicate]
  omega

theorem length_pixels {rows : List (List Rgb)} {width : ℕ}
    (h : ∀ row ∈ rows, row.length = width) :
    (rows.flatMap rowBytes).length = stride width * rows.length := by
  induction rows with
  | nil => rfl
  | cons row rows ih =>
    have hrest := ih fun r hr => h r (List.mem_cons_of_mem _ hr)
    rw [List.flatMap_cons, List.length_append, length_rowBytes, h row List.mem_cons_self, hrest,
      List.length_cons, Nat.mul_succ]
    omega

theorem readRow_colors (row : List Rgb) (rest : List UInt8) :
    readRow row.length ((row.flatMap fun p => [p.blue, p.green, p.red]) ++ rest) = row := by
  induction row with
  | nil => rfl
  | cons p row ih =>
    show p :: readRow row.length ((row.flatMap fun p => [p.blue, p.green, p.red]) ++ rest) = _
    rw [ih]

/-- Behind the rows below it stands the row. -/
theorem readRow_pixels {rows : List (List Rgb)} {width : ℕ}
    (h : ∀ row ∈ rows, row.length = width) {i : ℕ} {row : List Rgb} (hrow : rows[i]? = some row) :
    readRow width ((pixels rows).drop (stride width * (rows.length - 1 - i))) = row := by
  obtain ⟨hi, rfl⟩ := List.getElem?_eq_some_iff.1 hrow
  have hsplit : rows = rows.take i ++ rows[i] :: rows.drop (i + 1) := by
    rw [← List.drop_eq_getElem_cons hi, List.take_append_drop]
  have hbelow : ((rows.drop (i + 1)).reverse.flatMap rowBytes).length =
      stride width * (rows.length - 1 - i) := by
    have hwidth : ∀ r ∈ (rows.drop (i + 1)).reverse, r.length = width :=
      fun r hr => h r (List.mem_of_mem_drop (List.mem_reverse.1 hr))
    rw [length_pixels hwidth, List.length_reverse, List.length_drop]
    congr 1
    omega
  have hbytes : pixels rows = (rows.drop (i + 1)).reverse.flatMap rowBytes ++
      (rowBytes rows[i] ++ (rows.take i).reverse.flatMap rowBytes) := by
    unfold pixels
    conv_lhs => rw [hsplit]
    rw [List.reverse_append, List.reverse_cons, List.append_assoc, List.flatMap_append,
      List.flatMap_append, List.flatMap_singleton]
  have hlength : rows[i].length = width := h _ (List.getElem_mem hi)
  rw [hbytes, ← hbelow, List.drop_left, rowBytes, List.append_assoc, ← hlength, readRow_colors]

theorem word_append {header : List UInt8} (rest : List UInt8) {offset size : ℕ}
    (h : offset + size ≤ header.length) : word (header ++ rest) offset size =
      word header offset size := by
  rw [word, word, List.drop_append_of_le_length (by omega),
    List.take_append_of_le_length (by rw [List.length_drop]; omega)]

theorem read_written {rows : List (List Rgb)} {width : ℕ} {header : List UInt8}
    (hheader : Header width rows.length header) (h : ∀ row ∈ rows, row.length = width) :
    read (header ++ pixels rows) = some rows := by
  obtain ⟨hlength, hmagic, hfileSize, hoffset, hinfo, hwidth, hheight, hsmall, hplanes, hbits,
    hcompression⟩ := hheader
  have hpixels : (pixels rows).length = stride width * rows.length := by
    rw [pixels, length_pixels fun row hrow => h row (List.mem_reverse.1 hrow), List.length_reverse]
  have hfile : (header ++ pixels rows).length = 54 + stride width * rows.length := by
    rw [List.length_append, hlength, hpixels]
  have hword : ∀ offset size, offset + size ≤ 54 →
      word (header ++ pixels rows) offset size = word header offset size :=
    fun offset size hle => word_append _ (by omega)
  unfold read
  rw [hword 10 4 (by omega), hword 18 4 (by omega), hword 22 4 (by omega), hword 2 4 (by omega),
    hword 14 4 (by omega), hword 26 2 (by omega), hword 28 2 (by omega), hword 30 4 (by omega),
    hoffset, hwidth, hheight, hfileSize, hinfo, hplanes, hbits, hcompression, hfile,
    List.take_append_of_le_length (by omega), hmagic]
  dsimp only
  rw [if_pos ⟨rfl, rfl, rfl, hsmall, rfl, rfl, rfl, Nat.le_refl _⟩, Option.some.injEq]
  refine List.ext_getElem? fun i => ?_
  by_cases hi : i < rows.length
  · have hrow : rows[i]? = some rows[i] := List.getElem?_eq_getElem hi
    have hdrop : (header ++ pixels rows).drop (54 + stride width * (rows.length - 1 - i)) =
        (pixels rows).drop (stride width * (rows.length - 1 - i)) := by
      rw [← hlength, List.drop_length_add_append]
    rw [List.getElem?_map, List.getElem?_range hi, Option.map_some, hdrop,
      readRow_pixels h hrow, hrow]
  · rw [List.getElem?_eq_none (by simpa using hi), List.getElem?_eq_none (by omega)]

end MinotaurRobot.Lib.Bitmap
