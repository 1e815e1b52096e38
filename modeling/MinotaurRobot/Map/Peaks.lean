import Mathlib.Algebra.Order.Floor.Ring
import Mathlib.Data.Rat.Floor
import Mathlib.Tactic.FieldSimp
import MinotaurRobot.Lib.Argmax
import MinotaurRobot.Map.Wall

/-!
# The peaks of the walls

The last stage of `ComWallFrame::action` looks for local maxima in `fft_data`,
an array of 480 angles by 256 distances.  A cell and its eight neighbours are
scanned for the largest positive value, and the cell is a peak if the scan ends
with no place or with the cell itself.  Peaks that are high enough are inserted
into a set of walls.

The scan has no border.  `fftAt` therefore reads the memory in which the array
lies: a column outside the array is in the row above or below, and a row outside
is not in the array at all.  `localMaximumTest_iff` says that the test is right
for the cells that are not on the border.  Walls are looked for in rows that are
far from the first and the last one, so their scans stay in the memory of the
array.  A peak at the end of a row may still be missed, but not the first cell
with the largest value of the array (`first_maximum_reported`).
-/

namespace MinotaurRobot.Map

open Lib.Argmax

/-! ## `wallframe.cpp` -/

def nslope : ℤ := 480

def nodist : ℤ := 256

/-- The cells in the order of the loops. -/
def visited : List (ℤ × ℤ) :=
  (List.range nslope.toNat).flatMap fun (y : ℕ) =>
    (List.range nodist.toNat).map fun (x : ℕ) => ((y : ℤ), (x : ℤ))

/-- `yo` and `xo` in the order of the loops. -/
def offsets : List (ℤ × ℤ) := [-1, 0, 1].flatMap fun yo => [-1, 0, 1].map fun xo => (yo, xo)

/-- `yo * 3 + xo`. -/
def placeId (o : ℤ × ℤ) : ℤ := o.1 * 3 + o.2

section Code

variable {K : Type} [LinearOrder K] [Zero K]

/-- `fft_data[y][x]`.  The memory is given by the distance from the first
element. -/
def fftAt (fftData : ℤ → K) (y x : ℤ) : K := fftData (y * nodist + x)

/-- `maxgrad` and `maxgradid`, with the indices that were read so far. -/
structure Grad (K : Type) where
  maxgrad : K
  maxgradid : ℤ
  reads : List (ℤ × ℤ)

/-- One round of the loop over `yo` and `xo`. -/
def gradStep (fftData : ℤ → K) (y x : ℤ) (s : Grad K) (o : ℤ × ℤ) : Grad K :=
  let reads := s.reads ++ [(y + o.1, x + o.2)]
  if fftAt fftData (y + o.1) (x + o.2) > s.maxgrad then
    { maxgrad := fftAt fftData (y + o.1) (x + o.2)
      maxgradid := placeId o
      reads := reads }
  else { s with reads := reads }

def gradient (fftData : ℤ → K) (y x : ℤ) : Grad K :=
  offsets.foldl (gradStep fftData y x) ⟨0, 0, []⟩

/-- One round of the loop for `max_mag`. -/
def maxMagStep (fftData : ℤ → K) (maxMag : K) (p : ℤ × ℤ) : K :=
  if fftAt fftData p.1 p.2 > maxMag then fftAt fftData p.1 p.2 else maxMag

def maxMag (fftData : ℤ → K) : K := visited.foldl (maxMagStep fftData) 0

end Code

/-- `fmod` of numbers that are not negative. -/
def fmod (a b : ℚ) : ℚ := a - b * ⌊a / b⌋

/-- The wall of a cell. -/
def wallAt (p : ℤ × ℤ) : Wall where
  orient := fmod (p.1 / nslope * 2 * pi) pi - pi / 2
  yint := p.2 - nodist / 4

/-- What the stage stores in `frame`, before the conversion to `uint8_t`, and
the arguments of `walls.insert`.  The set drops a wall that equals one of its
own. -/
structure Painted (K : Type) where
  frame : List ((ℤ × ℤ) × K × K × K)
  inserted : List Wall

section Code

variable {K : Type} [Field K] [LinearOrder K]

def shade (fftData : ℤ → K) (p : ℤ × ℤ) : K :=
  max (fftAt fftData p.1 p.2) 0 / maxMag fftData * 255

/-- One round of the loop over the cells. -/
def paintCell (fftData : ℤ → K) (out : Painted K) (p : ℤ × ℤ) : Painted K :=
  let mag := max (fftAt fftData p.1 p.2) 0
  let s := shade fftData p
  if (gradient fftData p.1 p.2).maxgradid ≠ 0 then
    { out with frame := out.frame ++ [(p, s, s, s)] }
  else if |p.1 - nslope / 2| ≤ nslope / 4 then
    { frame := out.frame ++ [(p, s, 0, 0)]
      inserted := if mag > 125893 then out.inserted ++ [wallAt p] else out.inserted }
  else out

/-- The stage behind the second transform. -/
def localMaxima (fftData : ℤ → K) : Painted K :=
  visited.foldl (paintCell fftData) ⟨[], []⟩

end Code

/-! ## Cells -/

/-- Rows `0` to `479`, and columns `0` to `255`. -/
def InArray (p : ℤ × ℤ) : Prop := (0 ≤ p.1 ∧ p.1 < nslope) ∧ 0 ≤ p.2 ∧ p.2 < nodist

instance : DecidablePred InArray := fun _ => inferInstanceAs (Decidable (_ ∧ _))

/-- The order in which the loops visit the cells. -/
def Precedes (p q : ℤ × ℤ) : Prop := p.1 < q.1 ∨ p.1 = q.1 ∧ p.2 < q.2

/-- A neighbour inside the array. -/
structure Neighbour (y x : ℤ) (p : ℤ × ℤ) : Prop where
  inArray : InArray p
  ne : p ≠ (y, x)
  row : |p.1 - y| ≤ 1
  column : |p.2 - x| ≤ 1

theorem mem_visited {p : ℤ × ℤ} : p ∈ visited ↔ InArray p := by
  obtain ⟨y, x⟩ := p
  simp only [visited, InArray, List.mem_flatMap, List.mem_map, List.mem_range, Prod.mk.injEq]
  constructor
  · rintro ⟨i, hi, j, hj, rfl, rfl⟩
    omega
  · rintro ⟨⟨hy, hy'⟩, hx, hx'⟩
    exact ⟨y.toNat, by omega, x.toNat, by omega, by omega, by omega⟩

/-- The places that are scanned in front of the cell. -/
def before : List (ℤ × ℤ) := [(-1, -1), (-1, 0), (-1, 1), (0, -1)]

/-- The places that are scanned behind it. -/
def behind : List (ℤ × ℤ) := [(0, 1), (1, -1), (1, 0), (1, 1)]

theorem offsets_eq : offsets = before ++ (0, 0) :: behind := rfl

theorem mem_before {yo xo : ℤ} :
    (yo, xo) ∈ before ↔ (|yo| ≤ 1 ∧ |xo| ≤ 1) ∧ Precedes (yo, xo) (0, 0) := by
  unfold before Precedes
  simp only [List.mem_cons, Prod.mk.injEq, List.not_mem_nil, or_false, abs_le]
  omega

theorem mem_behind {yo xo : ℤ} :
    (yo, xo) ∈ behind ↔ (|yo| ≤ 1 ∧ |xo| ≤ 1) ∧ Precedes (0, 0) (yo, xo) := by
  unfold behind Precedes
  simp only [List.mem_cons, Prod.mk.injEq, List.not_mem_nil, or_false, abs_le]
  omega

/-! ## The scan -/

section Scan

variable {K : Type} [LinearOrder K]

theorem foldl_gradStep (fftData : ℤ → K) (y x : ℤ) (s : Grad K) (l : List (ℤ × ℤ)) :
    ((l.foldl (gradStep fftData y x) s).maxgrad, (l.foldl (gradStep fftData y x) s).maxgradid) =
        scan (fun o => fftAt fftData (y + o.1) (x + o.2)) placeId
          (s.maxgrad, s.maxgradid) l ∧
      (l.foldl (gradStep fftData y x) s).reads =
        s.reads ++ l.map fun o => (y + o.1, x + o.2) := by
  induction l generalizing s with
  | nil => exact ⟨rfl, (List.append_nil s.reads).symm⟩
  | cons o l ih =>
    obtain ⟨hbest, hreads⟩ := ih (gradStep fftData y x s o)
    have hstep : ((gradStep fftData y x s o).maxgrad, (gradStep fftData y x s o).maxgradid) =
        scanStep (fun o => fftAt fftData (y + o.1) (x + o.2)) placeId
          (s.maxgrad, s.maxgradid) o := by
      unfold gradStep scanStep
      split_ifs <;> rfl
    have hread : (gradStep fftData y x s o).reads = s.reads ++ [(y + o.1, x + o.2)] := by
      unfold gradStep
      split_ifs <;> rfl
    constructor
    · rw [List.foldl_cons, hbest, hstep]
      rfl
    · rw [List.foldl_cons, hreads, hread, List.append_assoc]
      rfl

variable [Zero K]

theorem gradient_reads (fftData : ℤ → K) (y x : ℤ) :
    (gradient fftData y x).reads = offsets.map fun o => (y + o.1, x + o.2) :=
  (foldl_gradStep fftData y x ⟨0, 0, []⟩ offsets).2

/-- The scan ends with the cell if nothing that it reads is positive, or if the
cell is the first largest of what it reads. -/
theorem maxgradid_eq_zero_iff (fftData : ℤ → K) (y x : ℤ) :
    (gradient fftData y x).maxgradid = 0 ↔
      (∀ o ∈ offsets, fftAt fftData (y + o.1) (x + o.2) ≤ 0) ∨
        0 < fftAt fftData y x ∧
          (∀ o ∈ before, fftAt fftData (y + o.1) (x + o.2) < fftAt fftData y x) ∧
            ∀ o ∈ behind, fftAt fftData (y + o.1) (x + o.2) ≤ fftAt fftData y x := by
  have hscan := congrArg Prod.snd (foldl_gradStep fftData y x ⟨0, 0, []⟩ offsets).1
  dsimp only at hscan
  have hcentre : placeId (0, 0) = ((0 : K), (0 : ℤ)).2 := rfl
  have hbefore : ∀ o ∈ before, placeId o ≠ 0 := by decide
  have hbehind : ∀ o ∈ behind, placeId o ≠ 0 := by decide
  rw [gradient, hscan, offsets_eq, scan_label_iff hcentre hbefore hbehind]
  dsimp only
  rw [add_zero, add_zero]

/-- Of two neighbouring cells only one can be a peak, up to cells that are not
positive. -/
theorem peaks_apart {fftData : ℤ → K} {y x : ℤ} (hpeak : (gradient fftData y x).maxgradid = 0)
    (hpos : 0 < fftAt fftData y x) {o : ℤ × ℤ} (ho : o ∈ behind) :
    (gradient fftData (y + o.1) (x + o.2)).maxgradid ≠ 0 := by
  intro hother
  have hopposite : ∀ o ∈ behind, (-o.1, -o.2) ∈ before := by decide
  have hback := hopposite o ho
  have hscanned : (-o.1, -o.2) ∈ offsets := by
    rw [offsets_eq]
    exact List.mem_append_left _ hback
  have hrow : y + o.1 + -o.1 = y := by omega
  have hcolumn : x + o.2 + -o.2 = x := by omega
  have hle : fftAt fftData (y + o.1) (x + o.2) ≤ fftAt fftData y x := by
    rcases (maxgradid_eq_zero_iff fftData y x).1 hpeak with hnone | ⟨-, -, hbehind⟩
    · have hcell := hnone (0, 0) (by decide)
      rw [add_zero, add_zero] at hcell
      exact absurd hpos (not_lt.2 hcell)
    · exact hbehind o ho
  rcases (maxgradid_eq_zero_iff fftData (y + o.1) (x + o.2)).1 hother with hnone | ⟨-, hbefore, -⟩
  · have hcell := hnone (-o.1, -o.2) hscanned
    dsimp only at hcell
    rw [hrow, hcolumn] at hcell
    exact absurd hpos (not_lt.2 hcell)
  · have hlt := hbefore (-o.1, -o.2) hback
    dsimp only at hlt
    rw [hrow, hcolumn] at hlt
    exact absurd hlt (not_lt.2 hle)

/-! ## Local maxima -/

/-- No neighbour is larger, and none in front of the cell is equal. -/
structure IsPeak (fftData : ℤ → K) (y x : ℤ) : Prop where
  largest : ∀ p, Neighbour y x p → fftAt fftData p.1 p.2 ≤ fftAt fftData y x
  first : ∀ p, Neighbour y x p → Precedes p (y, x) → fftAt fftData p.1 p.2 ≠ fftAt fftData y x

def NothingPositive (fftData : ℤ → K) (y x : ℤ) : Prop :=
  fftAt fftData y x ≤ 0 ∧ ∀ p, Neighbour y x p → fftAt fftData p.1 p.2 ≤ 0

/-- The first cell that attains a positive maximum of the array. -/
structure FirstMaximum (fftData : ℤ → K) (y x : ℤ) : Prop where
  inArray : InArray (y, x)
  positive : 0 < fftAt fftData y x
  largest : ∀ p, InArray p → fftAt fftData p.1 p.2 ≤ fftAt fftData y x
  first : ∀ p, InArray p → Precedes p (y, x) → fftAt fftData p.1 p.2 ≠ fftAt fftData y x

/-- The scan reads inside the array, ends with the cell exactly at the local
maxima, and finds the first maximum of the array. -/
structure LocalMaximumTest (fftData : ℤ → K) (y x : ℤ) : Prop where
  reads : ∀ p ∈ (gradient fftData y x).reads, InArray p
  peak : (gradient fftData y x).maxgradid = 0 ↔
    IsPeak fftData y x ∨ NothingPositive fftData y x
  maximum : FirstMaximum fftData y x → (gradient fftData y x).maxgradid = 0

/-- A cell that is not on the border. -/
def Inside (y x : ℤ) : Prop := (1 ≤ y ∧ y ≤ 478) ∧ 1 ≤ x ∧ x ≤ 254

theorem neighbour_of_offset {y x : ℤ} (h : Inside y x) {o : ℤ × ℤ} (hrow : |o.1| ≤ 1)
    (hcolumn : |o.2| ≤ 1) (hne : o ≠ (0, 0)) : Neighbour y x (y + o.1, x + o.2) := by
  obtain ⟨yo, xo⟩ := o
  unfold Inside at h
  rw [ne_eq, Prod.mk.injEq] at hne
  rw [abs_le] at hrow hcolumn
  dsimp only at hrow hcolumn
  refine ⟨?_, ?_, ?_, ?_⟩
  · unfold InArray nslope nodist
    omega
  · rw [ne_eq, Prod.mk.injEq]
    omega
  · rw [add_sub_cancel_left, abs_le]
    exact hrow
  · rw [add_sub_cancel_left, abs_le]
    exact hcolumn

/-- The neighbours in front of a cell are scanned in front of it. -/
theorem forall_preceding_iff {y x : ℤ} (h : Inside y x) (P : ℤ × ℤ → Prop) :
    (∀ p, Neighbour y x p → Precedes p (y, x) → P p) ↔ ∀ o ∈ before, P (y + o.1, x + o.2) := by
  constructor
  · rintro hall ⟨yo, xo⟩ ho
    obtain ⟨⟨hrow, hcolumn⟩, hfront⟩ := mem_before.1 ho
    unfold Precedes at hfront
    refine hall _ (neighbour_of_offset h hrow hcolumn ?_) ?_
    · rw [ne_eq, Prod.mk.injEq]
      omega
    · unfold Precedes
      dsimp only at hfront ⊢
      omega
  · rintro hall ⟨y', x'⟩ hneighbour hfront
    have ho : (y' - y, x' - x) ∈ before := by
      refine mem_before.2 ⟨⟨hneighbour.row, hneighbour.column⟩, ?_⟩
      unfold Precedes at hfront ⊢
      dsimp only at hfront ⊢
      omega
    have hcell := hall _ ho
    dsimp only at hcell
    rwa [add_sub_cancel, add_sub_cancel] at hcell

theorem forall_neighbour_iff {y x : ℤ} (h : Inside y x) (P : ℤ × ℤ → Prop) :
    (∀ p, Neighbour y x p → P p) ↔
      (∀ o ∈ before, P (y + o.1, x + o.2)) ∧ ∀ o ∈ behind, P (y + o.1, x + o.2) := by
  rw [← forall_preceding_iff h]
  constructor
  · intro hall
    refine ⟨fun p hneighbour _ => hall p hneighbour, ?_⟩
    rintro ⟨yo, xo⟩ ho
    obtain ⟨⟨hrow, hcolumn⟩, hlater⟩ := mem_behind.1 ho
    unfold Precedes at hlater
    refine hall _ (neighbour_of_offset h hrow hcolumn ?_)
    rw [ne_eq, Prod.mk.injEq]
    omega
  · rintro ⟨hfront, hlater⟩ ⟨y', x'⟩ hneighbour
    by_cases hprecedes : Precedes (y', x') (y, x)
    · exact hfront _ hneighbour hprecedes
    · have ho : (y' - y, x' - x) ∈ behind := by
        have hne := hneighbour.ne
        rw [ne_eq, Prod.mk.injEq] at hne
        refine mem_behind.2 ⟨⟨hneighbour.row, hneighbour.column⟩, ?_⟩
        unfold Precedes at hprecedes ⊢
        dsimp only at hprecedes ⊢
        omega
      have hcell := hlater _ ho
      dsimp only at hcell
      rwa [add_sub_cancel, add_sub_cancel] at hcell

omit [Zero K] in
theorem isPeak_iff {fftData : ℤ → K} {y x : ℤ} (h : Inside y x) :
    IsPeak fftData y x ↔
      (∀ o ∈ before, fftAt fftData (y + o.1) (x + o.2) < fftAt fftData y x) ∧
        ∀ o ∈ behind, fftAt fftData (y + o.1) (x + o.2) ≤ fftAt fftData y x := by
  have hlargest := forall_neighbour_iff h fun p => fftAt fftData p.1 p.2 ≤ fftAt fftData y x
  have hfirst := forall_preceding_iff h fun p => fftAt fftData p.1 p.2 ≠ fftAt fftData y x
  constructor
  · intro hpeak
    obtain ⟨hbefore, hbehind⟩ := hlargest.1 hpeak.largest
    exact ⟨fun o ho => (hbefore o ho).lt_of_ne (hfirst.1 hpeak.first o ho), hbehind⟩
  · rintro ⟨hbefore, hbehind⟩
    exact ⟨hlargest.2 ⟨fun o ho => (hbefore o ho).le, hbehind⟩,
      hfirst.2 fun o ho => (hbefore o ho).ne⟩

theorem nothingPositive_iff {fftData : ℤ → K} {y x : ℤ} (h : Inside y x) :
    NothingPositive fftData y x ↔ ∀ o ∈ offsets, fftAt fftData (y + o.1) (x + o.2) ≤ 0 := by
  have hall := forall_neighbour_iff h fun p => fftAt fftData p.1 p.2 ≤ 0
  unfold NothingPositive
  rw [hall, offsets_eq, List.forall_mem_append, List.forall_mem_cons, add_zero, add_zero]
  tauto

/-- Inside, the scan ends with the cell exactly at the local maxima. -/
theorem peak_iff_of_inside (fftData : ℤ → K) {y x : ℤ} (h : Inside y x) :
    (gradient fftData y x).maxgradid = 0 ↔
      IsPeak fftData y x ∨ NothingPositive fftData y x := by
  rw [maxgradid_eq_zero_iff, isPeak_iff h, nothingPositive_iff h]
  constructor
  · rintro (hnone | ⟨-, hbefore, hbehind⟩)
    · exact Or.inr hnone
    · exact Or.inl ⟨hbefore, hbehind⟩
  · rintro (⟨hbefore, hbehind⟩ | hnone)
    · rcases lt_or_ge 0 (fftAt fftData y x) with hpos | hle
      · exact Or.inr ⟨hpos, hbefore, hbehind⟩
      · -- a largest cell that is not positive
        refine Or.inl ?_
        rw [offsets_eq, List.forall_mem_append, List.forall_mem_cons, add_zero, add_zero]
        exact ⟨fun o ho => (hbefore o ho).le.trans hle, hle,
          fun o ho => (hbehind o ho).trans hle⟩
    · exact Or.inl hnone

theorem FirstMaximum.isPeak {fftData : ℤ → K} {y x : ℤ} (h : FirstMaximum fftData y x) :
    IsPeak fftData y x where
  largest := fun p hneighbour => h.largest p hneighbour.inArray
  first := fun p hneighbour hfront => h.first p hneighbour.inArray hfront

/-- The test is right for the cells that are not on the border of the array, and
for no others. -/
theorem localMaximumTest_iff (fftData : ℤ → K) {y x : ℤ} (h : (y, x) ∈ visited) :
    LocalMaximumTest fftData y x ↔ (1 ≤ y ∧ y ≤ 478) ∧ 1 ≤ x ∧ x ≤ 254 := by
  constructor
  · intro htest
    have hread : ∀ o ∈ offsets, InArray (y + o.1, x + o.2) := by
      intro o ho
      refine htest.reads _ ?_
      rw [gradient_reads]
      exact List.mem_map_of_mem ho
    have hlow := hread (-1, -1) (by decide)
    have hhigh := hread (1, 1) (by decide)
    unfold InArray nslope nodist at hlow hhigh
    omega
  · intro hinside
    refine ⟨?_, peak_iff_of_inside fftData hinside, ?_⟩
    · intro p hp
      rw [gradient_reads, offsets_eq, List.map_append, List.map_cons, List.mem_append,
        List.mem_cons, add_zero, add_zero] at hp
      have hneighbour := (forall_neighbour_iff hinside InArray).1 fun p hp => hp.inArray
      rcases hp with hfront | rfl | hlater
      · obtain ⟨o, ho, rfl⟩ := List.mem_map.1 hfront
        exact hneighbour.1 o ho
      · exact mem_visited.1 h
      · obtain ⟨o, ho, rfl⟩ := List.mem_map.1 hlater
        exact hneighbour.2 o ho
    · intro hmaximum
      exact (peak_iff_of_inside fftData hinside).2 (Or.inl hmaximum.isPeak)

/-- A single vote, in the second cell of row 1. -/
def cornerPeak (i : ℤ) : ℤ := if i = 257 then 1 else 0

theorem localMaximumTest_iff_corner :
    LocalMaximumTest cornerPeak 1 1 ∧ 0 < fftAt cornerPeak 1 1 ∧
      (gradient cornerPeak 1 1).maxgradid = 0 ∧ (gradient cornerPeak 1 2).maxgradid ≠ 0 :=
  ⟨(localMaximumTest_iff cornerPeak (mem_visited.2 (by decide))).2 (by decide), by decide,
    by decide, by decide⟩

/-- The last cell of row 4, and a lower one at the start of row 5. -/
def rowBehindRow (i : ℤ) : ℤ := if i = 1279 then 2 else if i = 1280 then 1 else 0

/-- The start of row 5 is larger than its neighbours, but the scan takes the end
of row 4 for one of them. -/
theorem rowBehindRow_missed :
    ¬ ∀ (fftData : ℤ → ℤ) (y x : ℤ), (y, x) ∈ visited → LocalMaximumTest fftData y x := by
  intro hall
  have htest := hall rowBehindRow 5 0 (mem_visited.2 (by decide))
  have hmissed : (gradient rowBehindRow 5 0).maxgradid ≠ 0 := by decide
  refine hmissed (htest.peak.2 (Or.inl ?_))
  have hsmall : ∀ p, Neighbour 5 0 p → fftAt rowBehindRow p.1 p.2 = 0 := by
    intro p hneighbour
    have hinside := hneighbour.inArray
    have hne := hneighbour.ne
    have hrow := hneighbour.row
    have hcolumn := hneighbour.column
    rw [ne_eq, Prod.ext_iff] at hne
    rw [abs_le] at hrow hcolumn
    unfold InArray at hinside
    unfold fftAt rowBehindRow nodist
    rw [if_neg (by omega), if_neg (by omega)]
  refine ⟨?_, ?_⟩
  · intro p hneighbour
    rw [hsmall p hneighbour]
    decide
  · intro p hneighbour _
    rw [hsmall p hneighbour]
    decide

/-! ## The memory around a cell -/

omit [Zero K] [LinearOrder K] in
/-- An element of the array, by its distance from the first one. -/
theorem fftAt_div_mod (fftData : ℤ → K) (i : ℤ) :
    fftAt fftData (i / nodist) (i % nodist) = fftData i := by
  unfold fftAt
  rw [Int.ediv_mul_add_emod]

theorem inArray_div_mod {i : ℤ} (hlow : 0 ≤ i) (hhigh : i < nslope * nodist) :
    InArray (i / nodist, i % nodist) := by
  unfold InArray nslope nodist at *
  dsimp only
  omega

theorem precedes_div_mod {i y x : ℤ} (hx : 0 ≤ x ∧ x < nodist) (hlt : i < y * nodist + x) :
    Precedes (i / nodist, i % nodist) (y, x) := by
  unfold Precedes nodist at *
  dsimp only
  omega

/-- As long as the scan does not leave the memory of the array, it finds the
first maximum.  What it reads across the end of a row is a cell of the array, on
the same side in the order of the loops. -/
theorem FirstMaximum.flagged {fftData : ℤ → K} {y x : ℤ} (h : FirstMaximum fftData y x)
    (hlow : 0 ≤ (y - 1) * nodist + (x - 1))
    (hhigh : (y + 1) * nodist + (x + 1) < nslope * nodist) :
    (gradient fftData y x).maxgradid = 0 := by
  have hcolumns := h.inArray.2
  have hread : ∀ yo xo : ℤ, |yo| ≤ 1 → |xo| ≤ 1 →
      InArray (((y + yo) * nodist + (x + xo)) / nodist,
        ((y + yo) * nodist + (x + xo)) % nodist) := by
    intro yo xo hrow hcolumn
    rw [abs_le] at hrow hcolumn
    apply inArray_div_mod <;> unfold nslope nodist at * <;> omega
  have hle : ∀ yo xo : ℤ, |yo| ≤ 1 → |xo| ≤ 1 →
      fftAt fftData (y + yo) (x + xo) ≤ fftAt fftData y x := by
    intro yo xo hrow hcolumn
    have hlargest := h.largest _ (hread yo xo hrow hcolumn)
    rwa [fftAt_div_mod] at hlargest
  rw [maxgradid_eq_zero_iff]
  refine Or.inr ⟨h.positive, ?_, ?_⟩
  · rintro ⟨yo, xo⟩ ho
    obtain ⟨⟨hrow, hcolumn⟩, hfront⟩ := mem_before.1 ho
    have hlt : (y + yo) * nodist + (x + xo) < y * nodist + x := by
      rw [abs_le] at hrow hcolumn
      unfold Precedes at hfront
      unfold nodist
      dsimp only at hfront
      omega
    have hfirst := h.first _ (hread yo xo hrow hcolumn) (precedes_div_mod hcolumns hlt)
    rw [fftAt_div_mod] at hfirst
    exact (hle yo xo hrow hcolumn).lt_of_ne hfirst
  · rintro ⟨yo, xo⟩ ho
    obtain ⟨⟨hrow, hcolumn⟩, -⟩ := mem_behind.1 ho
    exact hle yo xo hrow hcolumn

end Scan

/-! ## The walls -/

section Walls

variable {K : Type} [Field K] [LinearOrder K]

/-- The cell is inserted into `walls`. -/
def Reported (fftData : ℤ → K) (p : ℤ × ℤ) : Prop :=
  (gradient fftData p.1 p.2).maxgradid = 0 ∧ |p.1 - nslope / 2| ≤ nslope / 4 ∧
    max (fftAt fftData p.1 p.2) 0 > 125893

instance (fftData : ℤ → K) : DecidablePred (Reported fftData) :=
  fun _ => inferInstanceAs (Decidable (_ ∧ _))

theorem paintCell_inserted (fftData : ℤ → K) (out : Painted K) (p : ℤ × ℤ) :
    (paintCell fftData out p).inserted =
      if Reported fftData p then out.inserted ++ [wallAt p] else out.inserted := by
  unfold paintCell
  by_cases hpeak : (gradient fftData p.1 p.2).maxgradid = 0
  · rw [if_neg (not_not_intro hpeak)]
    by_cases hrow : |p.1 - nslope / 2| ≤ nslope / 4
    · rw [if_pos hrow]
      dsimp only
      by_cases hhigh : max (fftAt fftData p.1 p.2) 0 > 125893
      · have hreported : Reported fftData p := ⟨hpeak, hrow, hhigh⟩
        rw [if_pos hhigh, if_pos hreported]
      · have hreported : ¬ Reported fftData p := fun h => hhigh h.2.2
        rw [if_neg hhigh, if_neg hreported]
    · have hreported : ¬ Reported fftData p := fun h => hrow h.2.1
      rw [if_neg hrow, if_neg hreported]
  · have hreported : ¬ Reported fftData p := fun h => hpeak h.1
    rw [if_pos hpeak, if_neg hreported]

theorem foldl_paintCell_inserted (fftData : ℤ → K) (out : Painted K) (cells : List (ℤ × ℤ)) :
    (cells.foldl (paintCell fftData) out).inserted =
      out.inserted ++ (cells.filter (Reported fftData)).map wallAt := by
  induction cells generalizing out with
  | nil => exact (List.append_nil _).symm
  | cons p cells ih =>
    rw [List.foldl_cons, ih, paintCell_inserted, List.filter_cons]
    by_cases hreported : Reported fftData p
    · rw [if_pos hreported, if_pos (decide_eq_true hreported), List.map_cons, List.append_assoc]
      rfl
    · rw [if_neg hreported, if_neg (by simpa using hreported)]

theorem mem_inserted_iff (fftData : ℤ → K) {w : Wall} :
    w ∈ (localMaxima fftData).inserted ↔ ∃ p, InArray p ∧ Reported fftData p ∧ wallAt p = w := by
  rw [localMaxima, foldl_paintCell_inserted, List.nil_append, List.mem_map]
  simp only [List.mem_filter, mem_visited, decide_eq_true_eq, and_assoc]

/-- The wall of the first maximum is reported, in every column. -/
theorem first_maximum_reported {fftData : ℤ → K} {y x : ℤ} (h : FirstMaximum fftData y x)
    (hrow : |y - nslope / 2| ≤ nslope / 4) (hhigh : fftAt fftData y x > 125893) :
    wallAt (y, x) ∈ (localMaxima fftData).inserted := by
  have hinside := h.inArray
  have hflagged : (gradient fftData y x).maxgradid = 0 := by
    unfold InArray nslope nodist at hinside
    unfold nslope at hrow
    rw [abs_le] at hrow
    dsimp only at hinside
    apply h.flagged
    · unfold nodist
      omega
    · unfold nslope nodist
      omega
  exact (mem_inserted_iff fftData).2
    ⟨(y, x), hinside, ⟨hflagged, hrow, lt_max_of_lt_left hhigh⟩, rfl⟩

/-- Of two neighbouring cells one at most is reported. -/
theorem reported_apart [IsStrictOrderedRing K] {fftData : ℤ → K} {p : ℤ × ℤ}
    (h : Reported fftData p) {o : ℤ × ℤ} (ho : o ∈ behind) :
    ¬ Reported fftData (p.1 + o.1, p.2 + o.2) := by
  obtain ⟨hpeak, -, hhigh⟩ := h
  have hthreshold : (0 : K) ≤ 125893 := by norm_num
  have hpos : 0 < fftAt fftData p.1 p.2 := by
    rcases lt_max_iff.1 hhigh with hcell | hzero
    · exact hthreshold.trans_lt hcell
    · exact absurd hzero (not_lt.2 hthreshold)
  intro hother
  exact peaks_apart hpeak hpos ho hother.1

/-! ## The picture -/

omit [Field K] in
theorem le_foldl_maxMagStep (fftData : ℤ → K) (start : K) (cells : List (ℤ × ℤ)) :
    start ≤ cells.foldl (maxMagStep fftData) start ∧
      ∀ p ∈ cells, fftAt fftData p.1 p.2 ≤ cells.foldl (maxMagStep fftData) start := by
  induction cells generalizing start with
  | nil => exact ⟨le_refl start, fun p hp => absurd hp List.not_mem_nil⟩
  | cons p cells ih =>
    obtain ⟨hstart, hcells⟩ := ih (maxMagStep fftData start p)
    have hstep : start ≤ maxMagStep fftData start p ∧
        fftAt fftData p.1 p.2 ≤ maxMagStep fftData start p := by
      unfold maxMagStep
      split_ifs with hgt
      · exact ⟨hgt.le, le_refl _⟩
      · exact ⟨le_refl _, not_lt.1 hgt⟩
    rw [List.foldl_cons]
    refine ⟨hstep.1.trans hstart, ?_⟩
    intro q hq
    rcases List.mem_cons.1 hq with rfl | hrest
    · exact hstep.2.trans hstart
    · exact hcells q hrest

theorem le_maxMag (fftData : ℤ → K) {p : ℤ × ℤ} (hp : InArray p) :
    max (fftAt fftData p.1 p.2) 0 ≤ maxMag fftData := by
  obtain ⟨hstart, hcells⟩ := le_foldl_maxMagStep fftData 0 visited
  exact max_le (hcells p (mem_visited.2 hp)) hstart

/-- What a round stores is the shade of its cell, in all channels or in the
first one. -/
theorem paintCell_frame (fftData : ℤ → K) (out : Painted K) (p : ℤ × ℤ) :
    ∃ stored, (paintCell fftData out p).frame = out.frame ++ stored ∧
      ∀ q ∈ stored, q.1 = p ∧ ∀ channel ∈ [q.2.1, q.2.2.1, q.2.2.2],
        channel = shade fftData p ∨ channel = 0 := by
  unfold paintCell
  dsimp only
  split_ifs
  · exact ⟨_, rfl, by simp⟩
  · exact ⟨_, rfl, by simp⟩
  · exact ⟨_, rfl, by simp⟩
  · exact ⟨[], (List.append_nil _).symm, by simp⟩

variable [IsStrictOrderedRing K]

theorem shade_range {fftData : ℤ → K} (hpos : 0 < maxMag fftData) {p : ℤ × ℤ} (hp : InArray p) :
    0 ≤ shade fftData p ∧ shade fftData p ≤ 255 := by
  have hnonneg : 0 ≤ max (fftAt fftData p.1 p.2) 0 / maxMag fftData :=
    div_nonneg (le_max_right _ _) hpos.le
  have hone : max (fftAt fftData p.1 p.2) 0 / maxMag fftData ≤ 1 :=
    (div_le_one hpos).2 (le_maxMag fftData hp)
  unfold shade
  constructor
  · exact mul_nonneg hnonneg (by norm_num)
  · linarith

/-- If the array has a positive value, the conversions to `uint8_t` cut off
fractions only. -/
theorem frame_range {fftData : ℤ → K} (hpos : 0 < maxMag fftData) :
    ∀ q ∈ (localMaxima fftData).frame, InArray q.1 ∧
      ∀ channel ∈ [q.2.1, q.2.2.1, q.2.2.2], 0 ≤ channel ∧ channel ≤ 255 := by
  have hloop : ∀ (cells : List (ℤ × ℤ)), (∀ p ∈ cells, InArray p) →
      ∀ q ∈ (cells.foldl (paintCell fftData) ⟨[], []⟩).frame, InArray q.1 ∧
        ∀ channel ∈ [q.2.1, q.2.2.1, q.2.2.2], 0 ≤ channel ∧ channel ≤ 255 := by
    intro cells hcells
    induction cells using List.reverseRecOn with
    | nil =>
      intro q hq
      exact absurd hq List.not_mem_nil
    | append_singleton cells p ih =>
      intro q hq
      obtain ⟨stored, hframe, hstored⟩ :=
        paintCell_frame fftData (cells.foldl (paintCell fftData) ⟨[], []⟩) p
      rw [List.foldl_concat, hframe] at hq
      rcases List.mem_append.1 hq with hold | hnew
      · exact ih (fun p hp => hcells p (List.mem_append_left _ hp)) q hold
      · obtain ⟨hcell, hchannels⟩ := hstored q hnew
        have hp : InArray p := hcells p (List.mem_append_right _ (List.mem_singleton_self p))
        rw [hcell]
        refine ⟨hp, ?_⟩
        intro channel hchannel
        rcases hchannels channel hchannel with hshade | hzero
        · rw [hshade]
          exact shade_range hpos hp
        · rw [hzero]
          exact ⟨le_refl 0, by norm_num⟩
  exact hloop visited fun p hp => mem_visited.1 hp

end Walls

end MinotaurRobot.Map
