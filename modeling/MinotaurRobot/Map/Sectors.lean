import MinotaurRobot.Lib.Cells
import MinotaurRobot.Map.Point

/-!
# The occupancy map

The map keeps its points in sectors of eight by eight.  `getPoint` takes the
sector from the quotients of the two coordinates and the indices into its array
from the remainders.  Quotient and remainder are those of C: the quotient is
cut towards zero and the remainder has the sign of the coordinate.

Coordinates on the grid, the ones that are not negative and the multiples of
eight, give remainders from `0` to `7`.  `getPoint_stores_iff` says that the
map is a store on these and on no others.
-/

namespace MinotaurRobot.Map

open MinotaurRobot.Lib

/-! ## The map -/

/-- `Map::Coord`, the name of a sector. -/
abbrev Coord := Int × Int

/-- What a pointer into a sector points to: `points[row][col]`. -/
structure Cell where
  sector : Coord
  row : Int
  col : Int
  deriving DecidableEq, Repr

/-- The array of a sector is one block of points, row by row.  Two pairs of
indices with the same distance from its start are the same place. -/
def Cell.address (c : Cell) : Coord × Int := (c.sector, 8 * c.row + c.col)

/-- Both indices are indices of the array. -/
def Cell.InArray (c : Cell) : Prop := (0 ≤ c.row ∧ c.row ≤ 7) ∧ 0 ≤ c.col ∧ c.col ≤ 7

instance (c : Cell) : Decidable c.InArray := inferInstanceAs (Decidable (_ ∧ _))

/-- `getPoint`. -/
def getPoint (x y : Int) : Cell :=
  { sector := (x.tdiv 8, y.tdiv 8)
    row := y.tmod 8
    col := x.tmod 8 }

/-- `getSector`. -/
def getSector (x y : Int) : Coord := (x, y)

/-- The place is in the array of its sector. -/
def InBlock (place : Coord × Int) : Prop := 0 ≤ place.2 ∧ place.2 < 64

instance (place : Coord × Int) : Decidable (InBlock place) := inferInstanceAs (Decidable (_ ∧ _))

theorem Cell.InArray.inBlock {c : Cell} (h : c.InArray) : InBlock c.address := by
  simp only [Cell.InArray] at h
  simp only [InBlock, Cell.address]
  omega

/-- The memory at the places that cells can name.  `sectors[value]` makes a
sector that is not there, so every array can be read.  Outside the arrays the
memory belongs to something else. -/
abbrev Sectors := Coord × Int → Point

/-- The map before the first update, with anything at the places outside. -/
def Sectors.fresh (outside : Sectors) : Sectors :=
  fun place => if InBlock place then Point.fresh else outside place

/-- `getPoint(x, y)->incOpen()` or `getPoint(x, y)->incClosed()`. -/
structure Update where
  x : Int
  y : Int
  isOpen : Bool
  deriving DecidableEq, Repr

/-- The place that an update works on. -/
def Update.address (u : Update) : Coord × Int := (getPoint u.x u.y).address

/-- What an update does to its point. -/
def Update.act (u : Update) (p : Point) : Point :=
  if u.isOpen then p.incOpen else p.incClosed

/-- The map behind a list of updates in the arrays. -/
def Sectors.updateAll (sectors : Sectors) (updates : List Update) : Sectors :=
  Cells.applyAll Update.address Update.act sectors updates

/-- What the memory can be behind a list of updates.  Nothing is known of it once
an update has written outside an array. -/
inductive Sectors.Behind (sectors : Sectors) : List Update → Sectors → Prop where
  | nil : Behind sectors [] sectors
  | inside {updates : List Update} {after : Sectors} {u : Update}
      (h : Behind sectors updates after) (hin : InBlock u.address) :
      Behind sectors (updates ++ [u]) (after.updateAll [u])
  | outside {updates : List Update} {after : Sectors} {u : Update} (after' : Sectors)
      (h : Behind sectors updates after) (hout : ¬InBlock u.address) :
      Behind sectors (updates ++ [u]) after'

/-- Updates at other places leave a point as it is. -/
theorem updateAll_of_ne {sectors : Sectors} {updates : List Update} {place : Coord × Int}
    (h : ∀ u ∈ updates, u.address ≠ place) : sectors.updateAll updates place = sectors place := by
  unfold Sectors.updateAll
  exact Cells.applyAll_of_ne h

/-- One update changes the point at its own place. -/
theorem updateAll_singleton (sectors : Sectors) (u : Update) :
    sectors.updateAll [u] u.address = u.act (sectors u.address) := by
  show Function.update sectors u.address (u.act (sectors u.address)) u.address = _
  rw [Function.update_self]

/-! ## The coordinates that work -/

/-- A coordinate whose remainder is not negative. -/
def OnGrid (z : Int) : Prop := 0 ≤ z ∨ 8 ∣ z

instance (z : Int) : Decidable (OnGrid z) := inferInstanceAs (Decidable (_ ∨ _))

theorem tdiv_tmod_eight (z : Int) : 8 * z.tdiv 8 + z.tmod 8 = z := Int.mul_tdiv_add_tmod z 8

theorem tmod_eight_of_nonneg {z : Int} (h : 0 ≤ z) : 0 ≤ z.tmod 8 ∧ z.tmod 8 ≤ 7 := by
  have hlt := Int.tmod_lt_of_pos z (show (0 : Int) < 8 by decide)
  exact ⟨Int.tmod_nonneg 8 h, by omega⟩

theorem tmod_eight_of_neg {z : Int} (h : z < 0) : -7 ≤ z.tmod 8 ∧ z.tmod 8 ≤ 0 := by
  have hneg : (-z).tmod 8 = -z.tmod 8 := Int.neg_tmod z 8
  have hbound := tmod_eight_of_nonneg (show 0 ≤ -z by omega)
  omega

/-- The remainder is an index of the array exactly on the grid. -/
theorem tmod_eight_iff (z : Int) : (0 ≤ z.tmod 8 ∧ z.tmod 8 ≤ 7) ↔ OnGrid z := by
  have hdiv := tdiv_tmod_eight z
  unfold OnGrid
  rcases Int.lt_or_le z 0 with hneg | hpos
  · have hbound := tmod_eight_of_neg hneg
    omega
  · have hbound := tmod_eight_of_nonneg hpos
    omega

/-- On the grid the quotient is the sector in which the coordinate lies, and
off the grid it is the next one. -/
theorem tdiv_eight_iff (z : Int) : z.tdiv 8 = z / 8 ↔ OnGrid z := by
  have hdiv := tdiv_tmod_eight z
  rw [← tmod_eight_iff]
  omega

/-- `getPoint` stays inside the array exactly on the grid. -/
theorem getPoint_inArray_iff (x y : Int) : (getPoint x y).InArray ↔ OnGrid x ∧ OnGrid y := by
  rw [and_comm, ← tmod_eight_iff, ← tmod_eight_iff]
  rfl

/-- Two cells inside the array are at the same place only when they are the
same cell. -/
theorem Cell.eq_of_address {c d : Cell} (hc : c.InArray) (hd : d.InArray)
    (h : c.address = d.address) : c = d := by
  obtain ⟨sector, row, col⟩ := c
  obtain ⟨sector', row', col'⟩ := d
  simp only [Cell.InArray] at hc hd
  simp only [Cell.address, Prod.mk.injEq] at h
  obtain ⟨hsector, hoffset⟩ := h
  have hrow : row = row' := by omega
  have hcol : col = col' := by omega
  rw [hsector, hrow, hcol]

/-- Sector and indices together give the coordinates back. -/
theorem getPoint_injective {x y x' y' : Int} (h : getPoint x y = getPoint x' y') :
    x = x' ∧ y = y' := by
  simp only [getPoint, Cell.mk.injEq, Prod.mk.injEq] at h
  obtain ⟨⟨hqx, hqy⟩, hry, hrx⟩ := h
  have hx := tdiv_tmod_eight x
  have hx' := tdiv_tmod_eight x'
  have hy := tdiv_tmod_eight y
  have hy' := tdiv_tmod_eight y'
  rw [hqx, hrx] at hx
  rw [hqy, hry] at hy
  exact ⟨by omega, by omega⟩

/-- Different coordinates on the grid have their points at different places. -/
theorem getPoint_address_ne {x y x' y' : Int} (hx : OnGrid x) (hy : OnGrid y) (hx' : OnGrid x')
    (hy' : OnGrid y') (hne : (x, y) ≠ (x', y')) :
    (getPoint x y).address ≠ (getPoint x' y').address := by
  intro h
  have hcell := Cell.eq_of_address ((getPoint_inArray_iff x y).mpr ⟨hx, hy⟩)
    ((getPoint_inArray_iff x' y').mpr ⟨hx', hy'⟩) h
  obtain ⟨hxx, hyy⟩ := getPoint_injective hcell
  exact hne (by rw [hxx, hyy])

/-- The map is a store for two coordinate pairs, both cells inside their array
and, when the pairs differ, apart and independent, exactly when all four
coordinates are on the grid. -/
theorem getPoint_stores_iff (x y x' y' : Int) :
    ((getPoint x y).InArray ∧ (getPoint x' y').InArray ∧
        ((x, y) ≠ (x', y') →
          (getPoint x y).address ≠ (getPoint x' y').address ∧
            ∀ (sectors : Sectors) (marks : List Bool),
              (sectors.updateAll (marks.map (Update.mk x y)) (getPoint x' y').address).getProb =
                (sectors (getPoint x' y').address).getProb)) ↔
      (OnGrid x ∧ OnGrid y) ∧ OnGrid x' ∧ OnGrid y' := by
  rw [getPoint_inArray_iff, getPoint_inArray_iff]
  constructor
  · intro h
    exact ⟨h.1, h.2.1⟩
  · intro h
    obtain ⟨⟨hx, hy⟩, hx', hy'⟩ := h
    refine ⟨⟨hx, hy⟩, ⟨hx', hy'⟩, fun hne => ?_⟩
    have haddress := getPoint_address_ne hx hy hx' hy' hne
    refine ⟨haddress, fun sectors marks => ?_⟩
    have hother : ∀ u ∈ marks.map (Update.mk x y), u.address ≠ (getPoint x' y').address := by
      intro u hu
      obtain ⟨mark, -, rfl⟩ := List.mem_map.mp hu
      exact haddress
    rw [updateAll_of_ne hother]

/-- `(-1, 1)` is outside the array of its sector, at the place of `(7, 0)`: an
update of the one changes the other. -/
theorem getPoint_aliases :
    ¬ (getPoint (-1) 1).InArray ∧ (getPoint (-1) 1).address = (getPoint 7 0).address ∧
      ∀ outside : Sectors,
        ((Sectors.fresh outside).updateAll [⟨-1, 1, true⟩] (getPoint 7 0).address).getProb ≠
          (Sectors.fresh outside (getPoint 7 0).address).getProb := by
  refine ⟨by decide, by decide, fun outside => ?_⟩
  have hplace : (getPoint 7 0).address = (Update.mk (-1) 1 true).address := by decide
  have hfresh : Sectors.fresh outside (Update.mk (-1) 1 true).address = Point.fresh :=
    if_pos (by decide)
  rw [hplace, updateAll_singleton, hfresh]
  decide

end MinotaurRobot.Map
