import Mathlib.Data.List.Induction
import MinotaurRobot.Lib.Bitmap
import MinotaurRobot.Lib.Cells

/-!
# The pictures that are saved

`ComDumpVideo::action` turns the video frame upside down, swaps red and blue, and
writes it behind a fixed header into a file with the next number.

`dumps_read` reads the files of a run back: each is the picture that was shown
when it was taken.
-/

namespace MinotaurRobot.Camera

open Lib Bitmap

/-! ## `ComDumpVideo` -/

/-- `video_buffer`, by row, column and color. -/
abbrev VideoPixels := ℕ × ℕ × ℕ → UInt8

def charBmpHeader : String :=
  "424d36100e0000000000360000002800000080020000e0010000010018000000000000100e00" ++
    "01000000010000000000000000000000"

/-- A digit of the header, which has no capitals. -/
def hexDigit (c : Char) : ℕ := if c.isDigit then c.toNat - 48 else c.toNat - 87

/-- `sscanf(text, "%2hhx", &b)`. -/
def scanByte (text : List Char) : UInt8 :=
  UInt8.ofNat ((text.take 2).foldl (fun value c => 16 * value + hexDigit c) 0)

structure ComDumpVideo where
  bmpHeader : List UInt8
  frame : VideoPixels
  /-- An `int`: this is the code for fewer than `2 ^ 31` dumps. -/
  frameCount : ℕ

/-- The constructor.  `malloc` leaves the frame as it is. -/
def ComDumpVideo.new (frame : VideoPixels) : ComDumpVideo where
  bmpHeader := (List.range 54).map fun c => scanByte (charBmpHeader.toList.drop (2 * c))
  frame := frame
  frameCount := 0

/-- An assignment to a cell of the frame. -/
def VideoPixels.set (frame : VideoPixels) (y x color : ℕ) (value : UInt8) : VideoPixels :=
  Function.update frame (y, x, color) value

/-- The loops over the picture. -/
def copyLoop (dframe frame : VideoPixels) : VideoPixels :=
  (List.range 480).foldl (fun frame y =>
    (List.range 640).foldl (fun frame x =>
      let frame := frame.set (479 - y) x 0 (dframe (y, x, 2))
      let frame := frame.set (479 - y) x 1 (dframe (y, x, 1))
      frame.set (479 - y) x 2 (dframe (y, x, 0))) frame) frame

/-- `fwrite(frame,3,640*480,fout)`: the cells in the order of the memory. -/
def fwriteFrame (frame : VideoPixels) : List UInt8 :=
  (List.range 480).flatMap fun y =>
    (List.range 640).flatMap fun x => [frame (y, x, 0), frame (y, x, 1), frame (y, x, 2)]

/-- `"frame_%d.bmp"`. -/
def fileName (frameCount : ℕ) : String := "frame_" ++ frameCount.repr ++ ".bmp"

/-- The contents of the files by name. -/
abbrev Files := String → Option (List UInt8)

def ComDumpVideo.action (c : ComDumpVideo) (dframe : VideoPixels) (files : Files) :
    ComDumpVideo × Files :=
  let frame := copyLoop dframe c.frame
  ({ c with frame := frame, frameCount := c.frameCount + 1 },
    Function.update files (fileName c.frameCount) (some (c.bmpHeader ++ fwriteFrame frame)))

section Fields

-- an action is taken apart without running its loops
attribute [local irreducible] copyLoop fwriteFrame

@[simp] theorem action_bmpHeader (c : ComDumpVideo) (dframe : VideoPixels) (files : Files) :
    (c.action dframe files).1.bmpHeader = c.bmpHeader := rfl

@[simp] theorem action_frameCount (c : ComDumpVideo) (dframe : VideoPixels) (files : Files) :
    (c.action dframe files).1.frameCount = c.frameCount + 1 := rfl

@[simp] theorem action_files (c : ComDumpVideo) (dframe : VideoPixels) (files : Files) :
    (c.action dframe files).2 = Function.update files (fileName c.frameCount)
      (some (c.bmpHeader ++ fwriteFrame (copyLoop dframe c.frame))) := rfl

end Fields

/-- The command for one picture after the other. -/
def ComDumpVideo.run (c : ComDumpVideo) (files : Files) (dframes : List VideoPixels) :
    ComDumpVideo × Files :=
  dframes.foldl (fun s dframe => s.1.action dframe s.2) (c, files)

/-! ## The copy -/

/-- The cells of a picture, in the order of the loops. -/
def cells : List (ℕ × ℕ × ℕ) :=
  (List.range 480).flatMap fun y => (List.range 640).flatMap fun x => [(y, x, 2), (y, x, 1), (y, x, 0)]

/-- Where a cell is copied to. -/
def target (cell : ℕ × ℕ × ℕ) : ℕ × ℕ × ℕ := (479 - cell.1, cell.2.1, 2 - cell.2.2)

theorem mem_cells {y x color : ℕ} :
    (y, x, color) ∈ cells ↔ y < 480 ∧ x < 640 ∧ color < 3 := by
  simp only [cells, List.mem_flatMap, List.mem_range, List.mem_cons, List.not_mem_nil, or_false,
    Prod.mk.injEq]
  constructor
  · rintro ⟨a, ha, b, hb, h | h | h⟩ <;> omega
  · rintro ⟨hy, hx, hcolor⟩
    exact ⟨y, hy, x, hx, by omega⟩

theorem copyLoop_eq (dframe frame : VideoPixels) :
    copyLoop dframe frame = Cells.applyAll target (fun cell _ => dframe cell) frame cells := by
  unfold Cells.applyAll cells
  rw [List.foldl_flatMap]
  refine congrArg (List.foldl · frame _) (funext fun frame => funext fun y => ?_)
  rw [List.foldl_flatMap]
  exact congrArg (List.foldl · frame _) (funext fun frame => funext fun x => rfl)

/-- The copy is upside down, with the colors in the other order. -/
theorem copyLoop_apply (dframe frame : VideoPixels) {y x color : ℕ} (hy : y < 480) (hx : x < 640)
    (hcolor : color < 3) : copyLoop dframe frame (y, x, color) = dframe (479 - y, x, 2 - color) := by
  have hmem : (479 - y, x, 2 - color) ∈ cells := mem_cells.2 ⟨by omega, hx, by omega⟩
  have htarget : (y, x, color) = target (479 - y, x, 2 - color) := by
    show _ = (479 - (479 - y), x, 2 - (2 - color))
    rw [Nat.sub_sub_self (by omega), Nat.sub_sub_self (by omega)]
  rw [copyLoop_eq, htarget]
  refine Cells.applyAll_written dframe frame hmem fun cell hcell hsame => ?_
  obtain ⟨y', x', color'⟩ := cell
  have hrange := mem_cells.1 hcell
  simp only [target, Prod.mk.injEq] at hsame
  congr 1
  rw [Prod.mk.injEq, Prod.mk.injEq]
  omega

/-! ## The files -/

/-- A video frame as rows of pixels, from the top. -/
def picture (dframe : VideoPixels) : List (List Rgb) :=
  (List.range 480).map fun y =>
    (List.range 640).map fun x => ⟨dframe (y, x, 0), dframe (y, x, 1), dframe (y, x, 2)⟩

theorem header_bmp (frame : VideoPixels) : Header 640 480 (ComDumpVideo.new frame).bmpHeader := by
  show Header 640 480 ((List.range 54).map fun c => scanByte (charBmpHeader.toList.drop (2 * c)))
  decide +kernel

theorem length_picture (dframe : VideoPixels) : (picture dframe).length = 480 := by
  rw [picture, List.length_map, List.length_range]

/-- The rows of the file from the bottom. -/
theorem fwriteFrame_copyLoop (dframe frame : VideoPixels) :
    fwriteFrame (copyLoop dframe frame) = pixels (picture dframe) := by
  have hrange : (List.range 480).reverse = (List.range 480).map fun y => 479 - y := by
    rw [List.range_eq_range', List.reverse_range', List.range_eq_range']
  have hrow : ∀ y, rowBytes ((List.range 640).map fun x =>
      (⟨dframe (y, x, 0), dframe (y, x, 1), dframe (y, x, 2)⟩ : Rgb)) =
        (List.range 640).flatMap fun x => [dframe (y, x, 2), dframe (y, x, 1), dframe (y, x, 0)] := by
    intro y
    have hfull : stride 640 - 3 * 640 = 0 := by decide
    rw [rowBytes, List.length_map, List.length_range, hfull, List.replicate_zero, List.append_nil,
      List.flatMap_map]
  rw [pixels, picture, ← List.map_reverse, hrange, List.flatMap_map, List.flatMap_map, fwriteFrame]
  refine List.flatMap_congr fun y hy => ?_
  rw [hrow]
  refine List.flatMap_congr fun x hx => ?_
  rw [List.mem_range] at hy hx
  rw [copyLoop_apply _ _ hy hx (by omega), copyLoop_apply _ _ hy hx (by omega),
    copyLoop_apply _ _ hy hx (by omega)]

/-- The file of an action is the picture. -/
theorem read_file (frame dframe old : VideoPixels) :
    Bitmap.read ((ComDumpVideo.new frame).bmpHeader ++ fwriteFrame (copyLoop dframe old)) =
      some (picture dframe) := by
  rw [fwriteFrame_copyLoop]
  apply read_written
  · rw [length_picture]
    exact header_bmp frame
  · intro row hrow
    obtain ⟨y, -, rfl⟩ := List.mem_map.1 hrow
    rw [List.length_map, List.length_range]

theorem fileName_inj {n m : ℕ} (h : fileName n = fileName m) : n = m := by
  have hchars := congrArg String.toList h
  simp only [fileName, String.toList_append, List.append_assoc, List.append_cancel_left_eq,
    List.append_cancel_right_eq, Nat.toList_repr] at hchars
  have hvalue := congrArg (Nat.ofDigitChars 10 · 0) hchars
  simpa using hvalue

theorem run_concat (c : ComDumpVideo) (files : Files) (dframes : List VideoPixels)
    (dframe : VideoPixels) :
    c.run files (dframes ++ [dframe]) =
      (c.run files dframes).1.action dframe (c.run files dframes).2 := by
  unfold ComDumpVideo.run
  rw [List.foldl_append]
  rfl

/-- The files behind some pictures. -/
structure Dumped (frame : VideoPixels) (files : Files) (dframes : List VideoPixels)
    (s : ComDumpVideo × Files) : Prop where
  header : s.1.bmpHeader = (ComDumpVideo.new frame).bmpHeader
  count : s.1.frameCount = dframes.length
  file : ∀ i dframe, dframes[i]? = some dframe →
    (s.2 (fileName i)).bind Bitmap.read = some (picture dframe)
  other : ∀ name, (∀ i < dframes.length, name ≠ fileName i) → s.2 name = files name

theorem Dumped.action {frame : VideoPixels} {files : Files} {dframes : List VideoPixels}
    {s : ComDumpVideo × Files} (h : Dumped frame files dframes s) (dframe : VideoPixels) :
    Dumped frame files (dframes ++ [dframe]) (s.1.action dframe s.2) := by
  obtain ⟨hheader, hcount, hfile, hother⟩ := h
  have hlength : (dframes ++ [dframe]).length = dframes.length + 1 := List.length_append
  refine ⟨?_, ?_, fun i d hd => ?_, fun name hname => ?_⟩
  · rw [action_bmpHeader, hheader]
  · rw [action_frameCount, hcount, hlength]
  · rw [action_files, hcount]
    by_cases hi : i = dframes.length
    · rw [hi, List.getElem?_concat_length, Option.some.injEq] at hd
      rw [hi, Function.update_self, Option.bind_some, hheader, read_file, hd]
    · have hlt : i < dframes.length := by
        have := (List.getElem?_eq_some_iff.1 hd).1
        omega
      rw [Function.update_of_ne fun hsame => hi (fileName_inj hsame)]
      rw [List.getElem?_append_left hlt] at hd
      exact hfile i d hd
  · rw [action_files, hcount, Function.update_of_ne (hname _ (by omega))]
    exact hother name fun i hi => hname i (by omega)

theorem dumped_run (frame : VideoPixels) (files : Files) (dframes : List VideoPixels) :
    Dumped frame files dframes ((ComDumpVideo.new frame).run files dframes) := by
  induction dframes using List.reverseRecOn with
  | nil =>
    refine ⟨rfl, rfl, fun i dframe hdframe => ?_, fun name _ => rfl⟩
    cases hdframe
  | append_singleton dframes dframe ih =>
    rw [run_concat]
    exact ih.action dframe

/-- The files of a run are read back as the pictures, in their order, and no
other file has changed. -/
theorem dumps_read (frame : VideoPixels) (files : Files) (dframes : List VideoPixels) :
    ((List.range dframes.length).map fun i =>
        (((ComDumpVideo.new frame).run files dframes).2 (fileName i)).bind Bitmap.read) =
      (dframes.map fun dframe => some (picture dframe)) ∧
      ∀ name, (∀ i < dframes.length, name ≠ fileName i) →
        ((ComDumpVideo.new frame).run files dframes).2 name = files name := by
  obtain ⟨-, -, hfile, hother⟩ := dumped_run frame files dframes
  refine ⟨List.ext_getElem (by simp) fun i hi _ => ?_, hother⟩
  have hlt : i < dframes.length := by simpa using hi
  rw [List.getElem_map, List.getElem_map, List.getElem_range]
  exact hfile i _ (List.getElem?_eq_getElem hlt)

end MinotaurRobot.Camera
