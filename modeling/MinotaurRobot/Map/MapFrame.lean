import MinotaurRobot.Map.Sectors
import Mathlib.Data.List.FinRange

/-!
# The frame that shows the map

`ComMapFrame::action` paints one pixel for each point of eighty by sixty
sectors, with the origin of the map in the middle.  It names a point by its
sector and its indices, while the updates name it by its coordinates.

`render_pixel` reads a pixel off the four loops.  `render_agrees_iff` compares
the point that it shows with the one that the updates of its coordinates
change.
-/

namespace MinotaurRobot.Map

open MinotaurRobot.Lib

/-! ## Rendering -/

/-- The three bytes `frame[row][col]`. -/
structure Pixel where
  r : UInt8
  g : UInt8
  b : UInt8
  deriving DecidableEq, Repr

/-- The frame, by row and column. -/
abbrev Frame := Nat × Nat → Pixel

/-- A grey pixel. -/
def Pixel.gray (prob : UInt8) : Pixel := { r := prob, g := prob, b := prob }

/-- The marker of the robot. -/
def Pixel.marker : Pixel := { r := 0xFF, g := 0x00, b := 0x00 }

/-- The body of the loops: the pixel of `points[yo][xo]` in sector `(x, y)`,
for a robot at `(int)minostate.x` and `(int)minostate.y`. -/
def pixelOf (sectors : Sectors) (minoX minoY : Int) (y x yo xo : Nat) : Pixel :=
  let sector := getSector (x - 640 / 16) (y - 480 / 16)
  if (x : Int) * 8 - 640 / 2 + xo = minoX ∧ (y : Int) * 8 - 480 / 2 + yo = minoY then
    Pixel.marker
  else Pixel.gray (sectors (Cell.mk sector yo xo).address).getProb

/-- The rendering loops of `ComMapFrame::action`. -/
def render (sectors : Sectors) (minoX minoY : Int) (frame : Frame) : Frame :=
  (List.range (480 / 8)).foldl (fun frame y =>
    (List.range (640 / 8)).foldl (fun frame x =>
      (List.range 8).foldl (fun frame yo =>
        (List.range 8).foldl (fun frame xo =>
          Function.update frame (y * 8 + yo, x * 8 + xo)
            (pixelOf sectors minoX minoY y x yo xo)) frame) frame) frame) frame

/-! ## One pixel -/

/-- One round of the inner loop. -/
structure Round where
  y : Nat
  x : Nat
  yo : Nat
  xo : Nat

/-- The pixel that a round writes. -/
def Round.position (k : Round) : Nat × Nat := (k.y * 8 + k.yo, k.x * 8 + k.xo)

/-- The rounds in their order. -/
def rounds : List Round :=
  (List.range (480 / 8)).flatMap fun y =>
    (List.range (640 / 8)).flatMap fun x =>
      (List.range 8).flatMap fun yo => (List.range 8).map fun xo => ⟨y, x, yo, xo⟩

theorem mem_rounds {k : Round} :
    k ∈ rounds ↔ k.y < 60 ∧ k.x < 80 ∧ k.yo < 8 ∧ k.xo < 8 := by
  obtain ⟨y, x, yo, xo⟩ := k
  simp [rounds]

/-- The four loops are one loop over the rounds. -/
theorem render_eq_applyAll (sectors : Sectors) (minoX minoY : Int) (frame : Frame) :
    render sectors minoX minoY frame =
      Cells.applyAll Round.position
        (fun k _ => pixelOf sectors minoX minoY k.y k.x k.yo k.xo) frame rounds := by
  simp only [Cells.applyAll, rounds, List.foldl_flatMap, List.foldl_map]
  rfl

/-- No two rounds write the same pixel. -/
theorem Round.eq_of_position {k l : Round} (hk : k ∈ rounds) (hl : l ∈ rounds)
    (h : k.position = l.position) : k = l := by
  rw [mem_rounds] at hk hl
  obtain ⟨y, x, yo, xo⟩ := k
  obtain ⟨y', x', yo', xo'⟩ := l
  simp only [Round.position, Prod.mk.injEq] at hk hl h
  have hy : y = y' ∧ yo = yo' := by omega
  have hx : x = x' ∧ xo = xo' := by omega
  rw [hy.1, hy.2, hx.1, hx.2]

theorem render_position (sectors : Sectors) (minoX minoY : Int) (frame : Frame) {k : Round}
    (hk : k ∈ rounds) :
    render sectors minoX minoY frame k.position =
      pixelOf sectors minoX minoY k.y k.x k.yo k.xo := by
  have hsame : ∀ l ∈ rounds, l.position = k.position →
      pixelOf sectors minoX minoY l.y l.x l.yo l.xo =
        pixelOf sectors minoX minoY k.y k.x k.yo k.xo := by
    intro l hl h
    rw [Round.eq_of_position hl hk h]
  have hwritten := Cells.applyAll_written
    (fun k : Round => pixelOf sectors minoX minoY k.y k.x k.yo k.xo) frame hk hsame
  rw [render_eq_applyAll, hwritten]

/-- A pixel of the frame, with the sector and the indices of its point. -/
theorem render_pixel (sectors : Sectors) (minoX minoY : Int) (frame : Frame) {py px : Nat}
    (hpy : py < 480) (hpx : px < 640) :
    render sectors minoX minoY frame (py, px) =
      pixelOf sectors minoX minoY (py / 8) (px / 8) (py % 8) (px % 8) := by
  have hy : py / 8 < 60 := by omega
  have hx : px / 8 < 80 := by omega
  have hyo : py % 8 < 8 := by omega
  have hxo : px % 8 < 8 := by omega
  have hround : Round.mk (py / 8) (px / 8) (py % 8) (px % 8) ∈ rounds :=
    mem_rounds.mpr ⟨hy, hx, hyo, hxo⟩
  have hposition : (Round.mk (py / 8) (px / 8) (py % 8) (px % 8)).position = (py, px) := by
    rw [Round.position, Nat.div_add_mod' py 8, Nat.div_add_mod' px 8]
  rw [← hposition]
  exact render_position sectors minoX minoY frame hround

/-! ## Writer and reader -/

/-- The point that pixel `(py, px)` shows. -/
def shownCell (py px : Nat) : Cell :=
  ⟨getSector ((px / 8 : Nat) - 640 / 16) ((py / 8 : Nat) - 480 / 16), (py % 8 : Nat),
    (px % 8 : Nat)⟩

/-- Away from the marker a pixel is the grey of its point. -/
theorem render_gray (sectors : Sectors) {minoX minoY : Int} (frame : Frame) {py px : Nat}
    (hpy : py < 480) (hpx : px < 640)
    (hmarker : ((px : Int) - 320, (py : Int) - 240) ≠ (minoX, minoY)) :
    render sectors minoX minoY frame (py, px) =
      Pixel.gray (sectors (shownCell py px).address).getProb := by
  have helse : ¬ (((px / 8 : Nat) : Int) * 8 - 640 / 2 + (px % 8 : Nat) = minoX ∧
      ((py / 8 : Nat) : Int) * 8 - 480 / 2 + (py % 8 : Nat) = minoY) := by
    intro h
    apply hmarker
    apply Prod.ext
    · show (px : Int) - 320 = minoX
      omega
    · show (py : Int) - 240 = minoY
      omega
  rw [render_pixel sectors minoX minoY frame hpy hpx, pixelOf, if_neg helse]
  rfl

/-- A pixel shows a point inside the array of its sector. -/
theorem shownCell_inArray (py px : Nat) : (shownCell py px).InArray := by
  simp only [shownCell, Cell.InArray]
  omega

/-- The pixel and the updates of its coordinates agree on the sector exactly on
the grid. -/
theorem shownCell_sector (py px : Nat) :
    (shownCell py px).sector = (getPoint ((px : Int) - 320) ((py : Int) - 240)).sector ↔
      OnGrid ((px : Int) - 320) ∧ OnGrid ((py : Int) - 240) := by
  rw [← tdiv_eight_iff, ← tdiv_eight_iff]
  simp only [shownCell, getSector, getPoint, Prod.mk.injEq]
  omega

/-- On the grid the pixel shows the point of its coordinates. -/
theorem shownCell_eq {py px : Nat} (hx : OnGrid ((px : Int) - 320))
    (hy : OnGrid ((py : Int) - 240)) :
    shownCell py px = getPoint ((px : Int) - 320) ((py : Int) - 240) := by
  have hdx := tdiv_tmod_eight ((px : Int) - 320)
  have hdy := tdiv_tmod_eight ((py : Int) - 240)
  have hqx := (tdiv_eight_iff _).mpr hx
  have hqy := (tdiv_eight_iff _).mpr hy
  simp only [shownCell, getSector, getPoint, Cell.mk.injEq, Prod.mk.injEq]
  omega

/-- A pixel away from the marker shows, behind every list of updates inside the
frame and whatever the memory outside the arrays holds, the probability of the
point of its coordinates exactly when both coordinates are on the grid. -/
theorem render_agrees_iff {py px : Nat} (hpy : py < 480) (hpx : px < 640) :
    (∀ (outside after : Sectors) (updates : List Update) (minoX minoY : Int) (frame : Frame),
        (Sectors.fresh outside).Behind updates after →
          (∀ u ∈ updates, (-320 ≤ u.x ∧ u.x < 320) ∧ -240 ≤ u.y ∧ u.y < 240) →
            ((px : Int) - 320, (py : Int) - 240) ≠ (minoX, minoY) →
              render after minoX minoY frame (py, px) =
                Pixel.gray
                  (after (getPoint ((px : Int) - 320) ((py : Int) - 240)).address).getProb) ↔
      OnGrid ((px : Int) - 320) ∧ OnGrid ((py : Int) - 240) := by
  constructor
  · intro hagree
    by_contra hgrid
    let u : Update := ⟨(px : Int) - 320, (py : Int) - 240, true⟩
    have haddress : u.address ≠ (shownCell py px).address := by
      intro h
      exact hgrid ((shownCell_sector py px).mp (congrArg Prod.fst h).symm)
    have hmarker : ((px : Int) - 320, (py : Int) - 240) ≠ (320, 240) := by
      intro h
      have hx : (px : Int) - 320 = 320 := congrArg Prod.fst h
      omega
    have hinside : ∀ v ∈ [u], (-320 ≤ v.x ∧ v.x < 320) ∧ -240 ≤ v.y ∧ v.y < 240 := by
      intro v hv
      rw [List.mem_singleton] at hv
      subst hv
      simp only [u]
      omega
    have hfresh : ∀ outside : Sectors,
        Sectors.fresh outside (shownCell py px).address = Point.fresh :=
      fun outside => if_pos (shownCell_inArray py px).inBlock
    by_cases hblock : InBlock u.address
    · -- One open observation at the pixel's own coordinates: its point counts 128,
      -- and the point that is shown still counts 127.
      have hafter := Sectors.Behind.inside
        (.nil : (Sectors.fresh fun _ => Point.fresh).Behind [] _) hblock
      have hshown := hagree _ _ [u] 320 240 (fun _ => Pixel.marker) hafter hinside hmarker
      have hwriter : Sectors.fresh (fun _ => Point.fresh) u.address = Point.fresh := if_pos hblock
      rw [render_gray _ _ hpy hpx hmarker, updateAll_of_ne (by simpa using haddress),
        hfresh] at hshown
      change _ = Pixel.gray ((Sectors.fresh _).updateAll [u] u.address).getProb at hshown
      have hact : u.act Point.fresh = Point.fresh.incOpen := rfl
      rw [updateAll_singleton, hwriter, hact] at hshown
      exact absurd (congrArg Pixel.r hshown) (by decide)
    · -- The point of the coordinates is memory that counts 128, before any update.
      have hshown := hagree (fun _ => Point.fresh.incOpen) _ [] 320 240 (fun _ => Pixel.marker)
        .nil (by simp) hmarker
      have hreader : Sectors.fresh (fun _ => Point.fresh.incOpen) u.address =
          Point.fresh.incOpen := if_neg hblock
      rw [render_gray _ _ hpy hpx hmarker, hfresh] at hshown
      change _ = Pixel.gray (Sectors.fresh _ u.address).getProb at hshown
      rw [hreader] at hshown
      exact absurd (congrArg Pixel.r hshown) (by decide)
  · intro hgrid outside after updates minoX minoY frame _ _ hmarker
    rw [render_gray _ _ hpy hpx hmarker, shownCell_eq hgrid.1 hgrid.2]

/-- An open observation at the start shows in the middle of the frame. -/
theorem render_agrees_middle :
    ∃ after, (Sectors.fresh fun _ => Point.fresh).Behind [⟨0, 0, true⟩, ⟨-8, 3, false⟩] after ∧
      render after 5 5 (fun _ => Pixel.marker) (240, 320) = Pixel.gray 128 := by
  have hafter := Sectors.Behind.inside (u := ⟨-8, 3, false⟩) (.inside (u := ⟨0, 0, true⟩)
    (.nil : (Sectors.fresh fun _ => Point.fresh).Behind [] _) (by decide)) (by decide)
  exact ⟨_, hafter, ((render_agrees_iff (by decide) (by decide)).mpr (by decide) _ _ _ 5 5
    (fun _ => Pixel.marker) hafter (by decide) (by decide)).trans (by decide)⟩

/-- The open observation at `(-1, 1)` does not show in the pixel of these
coordinates: its point is that of `(7, 0)`. -/
theorem render_misses_left :
    (∀ outside : Sectors, (Sectors.fresh outside).Behind [⟨-1, 1, true⟩]
        ((Sectors.fresh outside).updateAll [⟨-1, 1, true⟩])) ∧
      ∀ outside : Sectors,
        render ((Sectors.fresh outside).updateAll [⟨-1, 1, true⟩]) 0 0 (fun _ => Pixel.marker)
            (241, 319) ≠
          Pixel.gray ((Sectors.fresh outside).updateAll [⟨-1, 1, true⟩]
            (getPoint (-1) 1).address).getProb := by
  refine ⟨fun outside => .inside .nil (by decide), fun outside => ?_⟩
  have hwriter : Sectors.fresh outside (Update.mk (-1) 1 true).address = Point.fresh :=
    if_pos (by decide)
  have hreader : Sectors.fresh outside (shownCell 241 319).address = Point.fresh :=
    if_pos (shownCell_inArray 241 319).inBlock
  rw [render_gray _ _ (by decide) (by decide) (by decide), updateAll_of_ne (by decide), hreader]
  change _ ≠ Pixel.gray ((Sectors.fresh outside).updateAll [⟨-1, 1, true⟩]
    (Update.mk (-1) 1 true).address).getProb
  rw [updateAll_singleton, hwriter]
  decide

end MinotaurRobot.Map
