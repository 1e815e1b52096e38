import MinotaurRobot.Lib.Cells
import Mathlib.Data.List.Flatten
import Mathlib.Data.List.Nodup

/-!
# The picture for the encoder

`Bitmap2Yuv420p` takes one pixel of four for the brightness and one of sixteen
for the two colour planes.  It goes over the pixels with one linear index and
has one pointer for each plane.

`lumaIndex` and `chromaIndex` are the distances that the pointers have gone,
as functions of the linear index.  `writes_eq` is the loop: it stores what
`pixelWrites` says for each pixel.  The rest is arithmetic on the addresses.

The linear index is a natural number here.  `fits_int` says up to which size of
a picture the `int` of the code is the same.
-/

namespace MinotaurRobot.Camera

open Lib

/-! ## `yuv.cpp` -/

/-- The value for the brightness of pixel `i`. -/
def luma (rgb : Nat → UInt8) (i : Nat) : Int :=
  (66 * (rgb (3 * i)).toNat + 129 * (rgb (3 * i + 1)).toNat + 25 * (rgb (3 * i + 2)).toNat : Int)
    >>> (8 : Nat) + 16

def chromaU (rgb : Nat → UInt8) (i : Nat) : Int :=
  (-38 * (rgb (3 * i)).toNat + -74 * (rgb (3 * i + 1)).toNat + 112 * (rgb (3 * i + 2)).toNat : Int)
    >>> (8 : Nat) + 128

def chromaV (rgb : Nat → UInt8) (i : Nat) : Int :=
  (112 * (rgb (3 * i)).toNat + -94 * (rgb (3 * i + 1)).toNat + -18 * (rgb (3 * i + 2)).toNat : Int)
    >>> (8 : Nat) + 128

/-- The three pointers, as distances from `destination`, and what was stored
so far: addresses, with the values before their conversion to `uint8_t`. -/
structure YuvLoop where
  dstY : Nat
  dstU : Nat
  dstV : Nat
  writes : List (Nat × Int)

def YuvLoop.putY (s : YuvLoop) (value : Int) : YuvLoop :=
  { s with dstY := s.dstY + 1, writes := s.writes ++ [(s.dstY, value)] }

def YuvLoop.putU (s : YuvLoop) (value : Int) : YuvLoop :=
  { s with dstU := s.dstU + 1, writes := s.writes ++ [(s.dstU, value)] }

def YuvLoop.putV (s : YuvLoop) (value : Int) : YuvLoop :=
  { s with dstV := s.dstV + 1, writes := s.writes ++ [(s.dstV, value)] }

/-- One round of the loop. -/
def yuvStep (rgb : Nat → UInt8) (s : YuvLoop) (i : Nat) : YuvLoop :=
  if i % 2 = 0 ∧ i / 640 % 2 = 0 then
    let s := s.putY (luma rgb i)
    if i % 4 = 0 ∧ i / 640 % 4 = 0 then
      let s := s.putU (chromaU rgb i)
      s.putV (chromaV rgb i)
    else s
  else s

/-- `Bitmap2Yuv420p`.  Returns what it stores, in its order. -/
def bitmap2Yuv420p (rgb : Nat → UInt8) (width height : Nat) : List (Nat × Int) :=
  let imageSize := width * height
  ((List.range imageSize).foldl (yuvStep rgb)
    { dstY := 0
      dstU := imageSize / 4
      dstV := imageSize / 4 + imageSize / 16
      writes := [] }).writes

/-- The destination behind some stores. -/
def stored (destination : Nat → UInt8) (writes : List (Nat × Int)) : Nat → UInt8 :=
  Cells.applyAll Prod.fst (fun w _ => UInt8.ofInt w.2) destination writes

/-- The destination behind `Bitmap2Yuv420p` on a picture of 640 columns. -/
def frameYuv (rgb : Nat → UInt8) (height : Nat) (destination : Nat → UInt8) : Nat → UInt8 :=
  stored destination (bitmap2Yuv420p rgb 640 height)

/-! ## The values -/

theorem luma_range (rgb : Nat → UInt8) (i : Nat) : 16 ≤ luma rgb i ∧ luma rgb i ≤ 235 := by
  have hr := (rgb (3 * i)).toNat_lt
  have hg := (rgb (3 * i + 1)).toNat_lt
  have hb := (rgb (3 * i + 2)).toNat_lt
  unfold luma
  rw [Int.shiftRight_eq_div_pow]
  omega

theorem chromaU_range (rgb : Nat → UInt8) (i : Nat) : 16 ≤ chromaU rgb i ∧ chromaU rgb i ≤ 239 := by
  have hr := (rgb (3 * i)).toNat_lt
  have hg := (rgb (3 * i + 1)).toNat_lt
  have hb := (rgb (3 * i + 2)).toNat_lt
  unfold chromaU
  rw [Int.shiftRight_eq_div_pow]
  omega

theorem chromaV_range (rgb : Nat → UInt8) (i : Nat) : 16 ≤ chromaV rgb i ∧ chromaV rgb i ≤ 239 := by
  have hr := (rgb (3 * i)).toNat_lt
  have hg := (rgb (3 * i + 1)).toNat_lt
  have hb := (rgb (3 * i + 2)).toNat_lt
  unfold chromaV
  rw [Int.shiftRight_eq_div_pow]
  omega

/-- Such a value is a byte. -/
theorem toNat_ofInt_of_range {v : Int} (hlow : 16 ≤ v) (hhigh : v ≤ 240) :
    ((UInt8.ofInt v).toNat : Int) = v := by
  have hmod : (v % 2 ^ 8).toNat = v.toNat := by
    congr 1
    omega
  rw [UInt8.ofInt, hmod, UInt8.toNat_ofNat']
  omega

/-! ## The pointers -/

/-- How far `dst_y` has gone before pixel `i`. -/
def lumaIndex (i : Nat) : Nat :=
  if i / 640 % 2 = 0 then i / 640 / 2 * 320 + (i % 640 + 1) / 2 else (i / 640 / 2 + 1) * 320

/-- How far `dst_u` and `dst_v` have gone before pixel `i`. -/
def chromaIndex (i : Nat) : Nat :=
  if i / 640 % 4 = 0 then i / 640 / 4 * 160 + (i % 640 + 3) / 4 else (i / 640 / 4 + 1) * 160

/-- The next pixel is in the same row, or starts the next one. -/
theorem next_pixel (i : Nat) :
    (i + 1) / 640 = i / 640 ∧ (i + 1) % 640 = i % 640 + 1 ∨
      i % 640 = 639 ∧ (i + 1) / 640 = i / 640 + 1 ∧ (i + 1) % 640 = 0 := by
  omega

theorem lumaIndex_succ (i : Nat) :
    lumaIndex (i + 1) = lumaIndex i + if i % 2 = 0 ∧ i / 640 % 2 = 0 then 1 else 0 := by
  have hparity : i % 2 = i % 640 % 2 := by omega
  have hcolumn : i % 640 < 640 := Nat.mod_lt _ (by decide)
  unfold lumaIndex
  rw [hparity]
  rcases next_pixel i with ⟨hrow, hnext⟩ | ⟨hlast, hrow, hnext⟩
  · rw [hrow, hnext]
    generalize i / 640 = r, i % 640 = c at *
    split_ifs <;> omega
  · have hodd : ¬ (639 % 2 = 0 ∧ i / 640 % 2 = 0) := by omega
    rw [hrow, hnext, hlast, if_neg hodd]
    generalize i / 640 = r
    split_ifs <;> omega

theorem chromaIndex_succ (i : Nat) :
    chromaIndex (i + 1) = chromaIndex i + if i % 4 = 0 ∧ i / 640 % 4 = 0 then 1 else 0 := by
  have hfour : i % 4 = i % 640 % 4 := by omega
  have hcolumn : i % 640 < 640 := Nat.mod_lt _ (by decide)
  unfold chromaIndex
  rw [hfour]
  rcases next_pixel i with ⟨hrow, hnext⟩ | ⟨hlast, hrow, hnext⟩
  · rw [hrow, hnext]
    generalize i / 640 = r, i % 640 = c at *
    split_ifs <;> omega
  · have hodd : ¬ (639 % 4 = 0 ∧ i / 640 % 4 = 0) := by omega
    rw [hrow, hnext, hlast, if_neg hodd]
    generalize i / 640 = r
    split_ifs <;> omega

/-! ## The loop -/

/-- What the loop stores for pixel `i` of a picture with `imageSize` pixels. -/
def pixelWrites (rgb : Nat → UInt8) (imageSize i : Nat) : List (Nat × Int) :=
  if i % 2 = 0 ∧ i / 640 % 2 = 0 then
    (lumaIndex i, luma rgb i) ::
      if i % 4 = 0 ∧ i / 640 % 4 = 0 then
        [(imageSize / 4 + chromaIndex i, chromaU rgb i),
          (imageSize / 4 + imageSize / 16 + chromaIndex i, chromaV rgb i)]
      else []
  else []

/-- The loop before pixel `i`. -/
def yuvBefore (rgb : Nat → UInt8) (imageSize i : Nat) : YuvLoop where
  dstY := lumaIndex i
  dstU := imageSize / 4 + chromaIndex i
  dstV := imageSize / 4 + imageSize / 16 + chromaIndex i
  writes := (List.range i).flatMap (pixelWrites rgb imageSize)

theorem yuvStep_before (rgb : Nat → UInt8) (imageSize i : Nat) :
    yuvStep rgb (yuvBefore rgb imageSize i) i = yuvBefore rgb imageSize (i + 1) := by
  have hluma := lumaIndex_succ i
  have hchroma := chromaIndex_succ i
  have hwrites : (List.range (i + 1)).flatMap (pixelWrites rgb imageSize) =
      (List.range i).flatMap (pixelWrites rgb imageSize) ++ pixelWrites rgb imageSize i := by
    rw [List.range_succ, List.flatMap_append, List.flatMap_singleton]
  have hnext : yuvBefore rgb imageSize (i + 1) =
      ⟨lumaIndex (i + 1), imageSize / 4 + chromaIndex (i + 1),
        imageSize / 4 + imageSize / 16 + chromaIndex (i + 1),
        (List.range i).flatMap (pixelWrites rgb imageSize) ++ pixelWrites rgb imageSize i⟩ := by
    rw [← hwrites]
    rfl
  rw [hnext, hluma, hchroma]
  unfold yuvStep pixelWrites
  by_cases heven : i % 2 = 0 ∧ i / 640 % 2 = 0
  · rw [if_pos heven, if_pos heven, if_pos heven]
    by_cases hfour : i % 4 = 0 ∧ i / 640 % 4 = 0
    · rw [if_pos hfour, if_pos hfour, if_pos hfour]
      simp only [YuvLoop.putY, YuvLoop.putU, YuvLoop.putV, yuvBefore, List.append_assoc]
      rfl
    · rw [if_neg hfour, if_neg hfour, if_neg hfour]
      rfl
  · have hfour : ¬ (i % 4 = 0 ∧ i / 640 % 4 = 0) := by omega
    rw [if_neg heven, if_neg heven, if_neg heven, if_neg hfour, List.append_nil]
    rfl

theorem writes_eq (rgb : Nat → UInt8) (width height : Nat) :
    bitmap2Yuv420p rgb width height =
      (List.range (width * height)).flatMap (pixelWrites rgb (width * height)) := by
  have hloop : ∀ n, (List.range n).foldl (yuvStep rgb) (yuvBefore rgb (width * height) 0) =
      yuvBefore rgb (width * height) n := by
    intro n
    induction n with
    | zero => rfl
    | succ n ih => rw [List.range_succ, List.foldl_concat, ih, yuvStep_before]
  exact congrArg YuvLoop.writes (hloop (width * height))

/-! ## The addresses -/

theorem lumaIndex_eq {r c : Nat} (hc : c < 640) (hr : r % 2 = 0) (heven : c % 2 = 0) :
    lumaIndex (640 * r + c) = r / 2 * 320 + c / 2 := by
  have hrow : (640 * r + c) / 640 = r := by omega
  have hcol : (640 * r + c) % 640 = c := by omega
  rw [lumaIndex, hrow, hcol, if_pos hr]
  omega

theorem chromaIndex_eq {r c : Nat} (hc : c < 640) (hr : r % 4 = 0) (hfour : c % 4 = 0) :
    chromaIndex (640 * r + c) = r / 4 * 160 + c / 4 := by
  have hrow : (640 * r + c) / 640 = r := by omega
  have hcol : (640 * r + c) % 640 = c := by omega
  rw [chromaIndex, hrow, hcol, if_pos hr]
  omega

/-- The stores for the pixel in row `r` and column `c`: one in each plane that
has it.  The planes start at `0`, `160 * height` and `200 * height`. -/
inductive PixelWrite (rgb : Nat → UInt8) (height r c : Nat) : Nat × Int → Prop where
  | y (hr : r % 2 = 0) (hc : c % 2 = 0) :
      PixelWrite rgb height r c (r / 2 * 320 + c / 2, luma rgb (640 * r + c))
  | u (hr : r % 4 = 0) (hc : c % 4 = 0) :
      PixelWrite rgb height r c
        (160 * height + (r / 4 * 160 + c / 4), chromaU rgb (640 * r + c))
  | v (hr : r % 4 = 0) (hc : c % 4 = 0) :
      PixelWrite rgb height r c
        (200 * height + (r / 4 * 160 + c / 4), chromaV rgb (640 * r + c))

theorem mem_pixelWrites_iff (rgb : Nat → UInt8) (height : Nat) {r c : Nat} (hc : c < 640)
    {w : Nat × Int} :
    w ∈ pixelWrites rgb (640 * height) (640 * r + c) ↔ PixelWrite rgb height r c w := by
  have hu : 640 * height / 4 = 160 * height := by omega
  have hv : 160 * height + 640 * height / 16 = 200 * height := by omega
  have heven : (640 * r + c) % 2 = 0 ∧ (640 * r + c) / 640 % 2 = 0 ↔ r % 2 = 0 ∧ c % 2 = 0 := by
    omega
  have hfour : (640 * r + c) % 4 = 0 ∧ (640 * r + c) / 640 % 4 = 0 ↔ r % 4 = 0 ∧ c % 4 = 0 := by
    omega
  unfold pixelWrites
  rw [hu, hv]
  simp only [heven, hfour]
  constructor
  · intro hw
    split_ifs at hw with h2 h4
    · rw [lumaIndex_eq hc h2.1 h2.2, chromaIndex_eq hc h4.1 h4.2] at hw
      simp only [List.mem_cons, List.not_mem_nil, or_false] at hw
      rcases hw with rfl | rfl | rfl
      · exact .y h2.1 h2.2
      · exact .u h4.1 h4.2
      · exact .v h4.1 h4.2
    · rw [lumaIndex_eq hc h2.1 h2.2, List.mem_singleton] at hw
      rw [hw]
      exact .y h2.1 h2.2
    · simp at hw
  · rintro (⟨hr, hcol⟩ | ⟨hr, hcol⟩ | ⟨hr, hcol⟩)
    · rw [if_pos ⟨hr, hcol⟩, lumaIndex_eq hc hr hcol]
      exact List.mem_cons_self ..
    · rw [if_pos (by omega), if_pos ⟨hr, hcol⟩, chromaIndex_eq hc hr hcol]
      simp
    · rw [if_pos (by omega), if_pos ⟨hr, hcol⟩, chromaIndex_eq hc hr hcol]
      simp

/-- The stores of a picture are those of its pixels. -/
theorem mem_writes_iff (rgb : Nat → UInt8) (height : Nat) {w : Nat × Int} :
    w ∈ bitmap2Yuv420p rgb 640 height ↔
      ∃ r c, r < height ∧ c < 640 ∧ PixelWrite rgb height r c w := by
  rw [writes_eq, List.mem_flatMap]
  constructor
  · rintro ⟨i, hi, hw⟩
    rw [List.mem_range] at hi
    have hsplit : 640 * (i / 640) + i % 640 = i := by omega
    rw [← hsplit] at hw
    exact ⟨i / 640, i % 640, by omega, by omega,
      (mem_pixelWrites_iff rgb height (by omega)).1 hw⟩
  · rintro ⟨r, c, hr, hc, hw⟩
    exact ⟨640 * r + c, List.mem_range.2 (by omega), (mem_pixelWrites_iff rgb height hc).2 hw⟩

/-- Where a store goes says which pixel it is for. -/
theorem PixelWrite.unique {rgb : Nat → UInt8} {height r c r' c' : Nat} (h4 : height % 4 = 0)
    (hr : r < height) (hc : c < 640) (hr' : r' < height) (hc' : c' < 640) {w w' : Nat × Int}
    (hw : PixelWrite rgb height r c w) (hw' : PixelWrite rgb height r' c' w')
    (haddr : w.1 = w'.1) : (r = r' ∧ c = c') ∧ w = w' := by
  -- different planes do not meet, and each plane holds its pixels row by row
  cases hw with
  | y hr2 hc2 =>
    cases hw' with
    | y hr2' hc2' =>
      dsimp only at haddr
      have hsame : r = r' ∧ c = c' := by omega
      obtain ⟨rfl, rfl⟩ := hsame
      exact ⟨⟨rfl, rfl⟩, rfl⟩
    | u | v => dsimp only at haddr; omega
  | u hr4 hc4 =>
    cases hw' with
    | u hr4' hc4' =>
      dsimp only at haddr
      have hsame : r = r' ∧ c = c' := by omega
      obtain ⟨rfl, rfl⟩ := hsame
      exact ⟨⟨rfl, rfl⟩, rfl⟩
    | y | v => dsimp only at haddr; omega
  | v hr4 hc4 =>
    cases hw' with
    | v hr4' hc4' =>
      dsimp only at haddr
      have hsame : r = r' ∧ c = c' := by omega
      obtain ⟨rfl, rfl⟩ := hsame
      exact ⟨⟨rfl, rfl⟩, rfl⟩
    | y | u => dsimp only at haddr; omega

/-- The stores of one pixel go to different places. -/
theorem pixelWrites_nodup (rgb : Nat → UInt8) {height i : Nat} (h4 : height % 4 = 0)
    (hi : i < 640 * height) : ((pixelWrites rgb (640 * height) i).map Prod.fst).Nodup := by
  have hluma : i % 2 = 0 ∧ i / 640 % 2 = 0 → lumaIndex i < 160 * height := by
    unfold lumaIndex
    intro heven
    rw [if_pos heven.2]
    omega
  have hchroma : i % 4 = 0 ∧ i / 640 % 4 = 0 → chromaIndex i < 40 * height := by
    unfold chromaIndex
    intro hfour
    rw [if_pos hfour.2]
    omega
  unfold pixelWrites
  split_ifs with h2 hfour
  · have hy := hluma h2
    have hu := hchroma hfour
    simp only [List.map_cons, List.map_nil, List.nodup_cons, List.mem_cons, List.not_mem_nil,
      or_false, not_false_eq_true, List.nodup_nil, and_true]
    omega
  · exact List.nodup_singleton _
  · exact List.nodup_nil

theorem writes_nodup (rgb : Nat → UInt8) {height : Nat} (h4 : height % 4 = 0) :
    ((bitmap2Yuv420p rgb 640 height).map Prod.fst).Nodup := by
  rw [writes_eq, List.map_flatMap, List.nodup_flatMap]
  constructor
  · intro i hi
    exact pixelWrites_nodup rgb h4 (List.mem_range.1 hi)
  · refine List.nodup_range.imp_of_mem ?_
    intro i j hi hj hne a hai haj
    rw [List.mem_range] at hi hj
    obtain ⟨w, hw, rfl⟩ := List.mem_map.1 hai
    obtain ⟨w', hw', haddr⟩ := List.mem_map.1 haj
    have hsplit : ∀ k, 640 * (k / 640) + k % 640 = k := fun k => by omega
    rw [← hsplit i, mem_pixelWrites_iff rgb height (by omega)] at hw
    rw [← hsplit j, mem_pixelWrites_iff rgb height (by omega)] at hw'
    have hsame := (hw.unique h4 (by omega) (by omega) (by omega) (by omega) hw' haddr.symm).1
    omega

/-- The stores go to the first `640 * height * 3 / 8` bytes. -/
theorem mem_addresses_iff (rgb : Nat → UInt8) {height : Nat} (h4 : height % 4 = 0) (a : Nat) :
    a ∈ (bitmap2Yuv420p rgb 640 height).map Prod.fst ↔ a < 640 * height * 3 / 8 := by
  rw [List.mem_map]
  constructor
  · rintro ⟨w, hw, rfl⟩
    obtain ⟨r, c, hr, hc, hw⟩ := (mem_writes_iff rgb height).1 hw
    cases hw <;> dsimp only <;> omega
  · intro ha
    have hstored : ∃ r c w, r < height ∧ c < 640 ∧ PixelWrite rgb height r c w ∧ w.1 = a := by
      by_cases hy : a < 160 * height
      · refine ⟨a / 320 * 2, a % 320 * 2, _, by omega, by omega, .y (by omega) (by omega), ?_⟩
        dsimp only
        omega
      · by_cases hu : a < 200 * height
        · refine ⟨(a - 160 * height) / 160 * 4, (a - 160 * height) % 160 * 4, _, by omega,
            by omega, .u (by omega) (by omega), ?_⟩
          dsimp only
          omega
        · refine ⟨(a - 200 * height) / 160 * 4, (a - 200 * height) % 160 * 4, _, by omega,
            by omega, .v (by omega) (by omega), ?_⟩
          dsimp only
          omega
    obtain ⟨r, c, w, hr, hc, hw, haddr⟩ := hstored
    exact ⟨w, (mem_writes_iff rgb height).2 ⟨r, c, hr, hc, hw⟩, haddr⟩

/-! ## The picture -/

theorem write_range {rgb : Nat → UInt8} {height r c : Nat} {w : Nat × Int}
    (h : PixelWrite rgb height r c w) : 16 ≤ w.2 ∧ w.2 ≤ 240 := by
  cases h with
  | y =>
    have hrange := luma_range rgb (640 * r + c)
    exact ⟨hrange.1, by dsimp only; omega⟩
  | u =>
    have hrange := chromaU_range rgb (640 * r + c)
    exact ⟨hrange.1, by dsimp only; omega⟩
  | v =>
    have hrange := chromaV_range rgb (640 * r + c)
    exact ⟨hrange.1, by dsimp only; omega⟩

/-- A byte that is stored holds its value. -/
theorem stored_eq {rgb : Nat → UInt8} {height r c : Nat} (h4 : height % 4 = 0) (hr : r < height)
    (hc : c < 640) (destination : Nat → UInt8) {w : Nat × Int}
    (hw : PixelWrite rgb height r c w) :
    ((frameYuv rgb height destination w.1).toNat : Int) = w.2 := by
  have hmem : w ∈ bitmap2Yuv420p rgb 640 height := (mem_writes_iff rgb height).2 ⟨r, c, hr, hc, hw⟩
  have hvalue : frameYuv rgb height destination w.1 = UInt8.ofInt w.2 := by
    refine Cells.applyAll_written (fun w => UInt8.ofInt w.2) destination hmem ?_
    intro w' hmem' haddr
    obtain ⟨r', c', hr', hc', hw'⟩ := (mem_writes_iff rgb height).1 hmem'
    rw [(hw'.unique h4 hr' hc' hr hc hw haddr).2]
  have hrange := write_range hw
  rw [hvalue, toNat_ofInt_of_range hrange.1 hrange.2]

/-- The index of the code is an `int`.  Its products stay below `2^31` for a
picture of two gigabytes. -/
theorem fits_int {height i : Nat} (h : 1920 * height ≤ 2147483648) (hi : i < 640 * height) :
    3 * i + 2 < 2147483648 := by
  omega

/-- `Bitmap2Yuv420p` is the subsampling by two and by four.  Each of the first
`640 * height * 3 / 8` bytes is stored once and no other is, the conversions to
`uint8_t` change nothing, and the three planes hold the values of their pixels,
row by row. -/
theorem bitmap2Yuv420p_subsamples (rgb destination : Nat → UInt8) {height : Nat}
    (h4 : 4 ∣ height) :
    ((bitmap2Yuv420p rgb 640 height).map Prod.fst).Nodup ∧
      (∀ a, a ∈ (bitmap2Yuv420p rgb 640 height).map Prod.fst ↔ a < 640 * height * 3 / 8) ∧
      (∀ a, 640 * height * 3 / 8 ≤ a → frameYuv rgb height destination a = destination a) ∧
      (∀ w ∈ bitmap2Yuv420p rgb 640 height,
        16 ≤ w.2 ∧ w.2 ≤ 240 ∧ ((UInt8.ofInt w.2).toNat : Int) = w.2) ∧
      (∀ r c, r < height → c < 640 → r % 2 = 0 → c % 2 = 0 →
        ((frameYuv rgb height destination (r / 2 * 320 + c / 2)).toNat : Int) =
          luma rgb (640 * r + c)) ∧
      ∀ r c, r < height → c < 640 → r % 4 = 0 → c % 4 = 0 →
        ((frameYuv rgb height destination
              (640 * height / 4 + (r / 4 * 160 + c / 4))).toNat : Int) =
            chromaU rgb (640 * r + c) ∧
          ((frameYuv rgb height destination
              (640 * height / 4 + 640 * height / 16 + (r / 4 * 160 + c / 4))).toNat : Int) =
            chromaV rgb (640 * r + c) := by
  have hmod : height % 4 = 0 := Nat.mod_eq_zero_of_dvd h4
  have hu : 640 * height / 4 = 160 * height := by omega
  have hv : 160 * height + 640 * height / 16 = 200 * height := by omega
  refine ⟨writes_nodup rgb hmod, mem_addresses_iff rgb hmod, ?_, ?_, ?_, ?_⟩
  · intro a ha
    rw [frameYuv, stored]
    apply Cells.applyAll_of_ne
    rintro w hw rfl
    have hlt := (mem_addresses_iff rgb hmod w.1).1 (List.mem_map_of_mem hw)
    omega
  · intro w hw
    obtain ⟨r, c, -, -, hpixel⟩ := (mem_writes_iff rgb height).1 hw
    obtain ⟨hlow, hhigh⟩ := write_range hpixel
    exact ⟨hlow, hhigh, toNat_ofInt_of_range hlow hhigh⟩
  · intro r c hr hc hr2 hc2
    exact stored_eq hmod hr hc destination (.y hr2 hc2)
  · intro r c hr hc hr4 hc4
    rw [hu, hv]
    exact ⟨stored_eq hmod hr hc destination (.u hr4 hc4),
      stored_eq hmod hr hc destination (.v hr4 hc4)⟩

/-- A white picture of the camera.  `fwrite` writes as many bytes as are stored. -/
theorem bitmap2Yuv420p_subsamples_white :
    (∀ a, a ∈ (bitmap2Yuv420p (fun _ => 255) 640 480).map Prod.fst ↔ a < 320 * 6 / 4 * 240) ∧
      ((frameYuv (fun _ => 255) 480 (fun _ => 0) (2 / 2 * 320 + 2 / 2)).toNat : Int) = 235 := by
  obtain ⟨-, haddr, -, -, hluma, -⟩ :=
    bitmap2Yuv420p_subsamples (fun _ => 255) (fun _ => 0) (show 4 ∣ 480 by decide)
  exact ⟨haddr, hluma 2 2 (by decide) (by decide) rfl rfl⟩

end MinotaurRobot.Camera
