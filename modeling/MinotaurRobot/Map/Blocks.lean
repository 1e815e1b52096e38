import Mathlib.Algebra.Order.Field.Rat
import Mathlib.Data.List.ReduceOption
import MinotaurRobot.Lib.LeastSquares
import MinotaurRobot.Map.MapFrame
import MinotaurRobot.Map.OpenCount
import MinotaurRobot.Map.Placement

/-!
# The blocks of the map frame

`ComMapFrame::action` takes every block of eight by eight pixels for a floor,
for another level surface, or for neither, and updates one point of the map.
A block is level if lines through its points, as seen from the two sides, are
flat and near enough to the points.

The code is written down for any numbers, and adds them in its own order.  A
slope whose divisor is zero is an infinity or no number, and every test on it
fails.  For exact numbers, where every depth has a distance and nothing is
rounded, the two lines are those of least squares (`isLevel_iff`), and a robot
that stands elsewhere takes a block for the same (`update_moved`).

For any numbers, behind every run of the action whose updates stay in the
arrays, a pixel of the frame is the count of the last 255 observations of its
point (`action_shows`).
-/

namespace MinotaurRobot.Map

open MinotaurRobot.Lib Lib.LeastSquares

variable {K : Type}

/-! ## `mapframe.cpp` -/

section Code

variable [Zero K] [Add K] [Sub K] [Neg K] [Mul K] [Div K] [NatCast K] [LT K] [DecidableLT K]
  [DecidableEq K]

def quickSquare (x : K) : K := x * x

def fabs (x : K) : K := if x < 0 then -x else x

/-- `atan`, and the conversion to an integer. -/
structure FloatFns (K : Type) where
  atan : K → K
  toInt : K → ℤ

/-- The first loops over a block: the points with `valid_points`, and
`avg_dist`. -/
structure Gathered (K : Type) where
  points : List (Point3d K)
  avgDist : K

def gather (toWorld : Point3d K → Point3d K) (decodeKinectDist : UInt16 → K)
    (block : List (DepthPixel K)) : Gathered K where
  points := (blockPoints toWorld decodeKinectDist block).reduceOption
  avgDist := total (fun px => decodeKinectDist px.depth) (block.filter fun px => px.IsValid)

namespace Gathered

/-- `avg3d`. -/
def avg3d (v : Gathered K) : Point3d K :=
  ⟨mean Point3d.x v.points, mean Point3d.y v.points, mean Point3d.z v.points⟩

/-- `slopezx` or `slopezy`, for `xSS` or `ySS` with `f`. -/
def slopez (v : Gathered K) (f : Point3d K → K) : Option K :=
  if cov f f v.points = 0 then none else some (slope f Point3d.z v.points)

/-- `floor_check1` or `floor_check2`. -/
def flat (fns : FloatFns K) (v : Gathered K) (f : Point3d K → K) : Bool :=
  (v.slopez f).any fun m => fabs (fns.atan m) < (262 : ℕ) / (1000 : ℕ)

/-- `floor_check3` or `floor_check4`. -/
def nearLine (v : Gathered K) (f : Point3d K → K) : Bool :=
  (v.slopez f).any fun m =>
    residual f Point3d.z m (mean Point3d.z v.points - m * mean f v.points) v.points *
        (50000 : ℕ) <
      v.points.length * quickSquare (v.avgDist / (100 : ℕ))

/-- The four checks. -/
def isLevel (fns : FloatFns K) (v : Gathered K) : Bool :=
  v.flat fns Point3d.x && v.flat fns Point3d.y && v.nearLine Point3d.x && v.nearLine Point3d.y

/-- A floor, below the robot. -/
def isOpen (fns : FloatFns K) (v : Gathered K) : Bool :=
  v.isLevel fns && (v.avg3d.z < -(800 : ℕ) && v.avg3d.z > -(1600 : ℕ))

/-- `incOpen` or `incClosed`, if there are enough points. -/
def update (fns : FloatFns K) (v : Gathered K) : Option Update :=
  if v.points.length ≤ 8 * 8 * 3 / 4 then none
  else
    some ⟨fns.toInt (v.avg3d.x / (3 * 100 : ℕ)), fns.toInt (v.avg3d.y / (3 * 100 : ℕ)),
      v.isOpen fns⟩

end Gathered

/-- A depth frame with the table of angles.  The indices are those of the
pixel. -/
abbrev DepthFrame (K : Type) := ℕ → ℕ → DepthPixel K

/-- The pixels of a block. -/
def blockOf (dframe : DepthFrame K) (y x : ℕ) : List (DepthPixel K) :=
  (List.range 8).flatMap fun yo => (List.range 8).map fun xo => dframe (y * 8 + yo) (x * 8 + xo)

/-- What the action has: the count of depth frames, the depth frame, the pose
of the robot. -/
structure Shot (K : Type) where
  depthCount : ℕ
  dframe : DepthFrame K
  minostate : MinoPose K

variable (fns : FloatFns K) (decodeKinectDist : UInt16 → K)

/-- One block of the first loops. -/
def blockUpdate (shot : Shot K) (y x : ℕ) : Option Update :=
  (gather (ComMapFrame.toWorld shot.minostate) decodeKinectDist (blockOf shot.dframe y x)).update fns

/-- `ComMapFrame::action`, with the map and `frame`, for updates in the arrays. -/
def ComMapFrame.action (shot : Shot K) (st : Sectors × Frame) : Int × Sectors × Frame :=
  if shot.depthCount ≤ 0 then (1, st)
  else
    let sectors := (List.range (480 / 8)).foldl (fun sectors y =>
      (List.range (640 / 8)).foldl (fun sectors x =>
        sectors.updateAll (blockUpdate fns decodeKinectDist shot y x).toList) sectors) st.1
    (0, sectors, render sectors (fns.toInt shot.minostate.x) (fns.toInt shot.minostate.y) st.2)

/-- The action again and again. -/
def ComMapFrame.actions (shots : List (Shot K)) (st : Sectors × Frame) : Sectors × Frame :=
  shots.foldl (fun st shot => (ComMapFrame.action fns decodeKinectDist shot st).2) st

end Code

section Exact

variable [Field K] [LinearOrder K] {fns : FloatFns K} {decodeKinectDist : UInt16 → K}

/-! ## Level blocks -/

omit [LinearOrder K] in
theorem quickSquare_eq (x : K) : quickSquare x = x ^ 2 := (sq x).symm

theorem nearLine_iff (v : Gathered K) (f : Point3d K → K) :
    v.nearLine f = true ↔ ∃ m ∈ v.slopez f,
      residual f Point3d.z m (mean Point3d.z v.points - m * mean f v.points) v.points * 50000 <
        v.points.length * (v.avgDist / 100) ^ 2 := by
  simp only [Gathered.nearLine, Option.any_eq_true, Option.mem_def, decide_eq_true_eq,
    quickSquare_eq, Nat.cast_ofNat]

section Level

variable [IsStrictOrderedRing K]

theorem fabs_eq_abs (x : K) : fabs x = |x| := by
  unfold fabs
  split_ifs with hneg
  · exact (abs_of_neg hneg).symm
  · exact (abs_of_nonneg (not_lt.1 hneg)).symm

theorem flat_iff (fns : FloatFns K) (v : Gathered K) (f : Point3d K → K) :
    v.flat fns f = true ↔ ∃ m ∈ v.slopez f, |fns.atan m| < 262 / 1000 := by
  simp only [Gathered.flat, Option.any_eq_true, Option.mem_def, decide_eq_true_eq, fabs_eq_abs,
    Nat.cast_ofNat]

/-- From one side the points are not all in one place, and the line that is
nearest to them is flat and near enough. -/
def LevelAlong (fns : FloatFns K) (v : Gathered K) (f : Point3d K → K) : Prop :=
  (∃ p ∈ v.points, ∃ q ∈ v.points, f p ≠ f q) ∧
    ∃ m c, Best f Point3d.z v.points m c ∧ |fns.atan m| < 262 / 1000 ∧
      residual f Point3d.z m c v.points * 50000 < v.points.length * (v.avgDist / 100) ^ 2

theorem spread_iff (v : Gathered K) (f : Point3d K → K) :
    cov f f v.points ≠ 0 ↔ ∃ p ∈ v.points, ∃ q ∈ v.points, f p ≠ f q := by
  rw [Ne, cov_self_eq_zero_iff]
  push Not
  rfl

theorem levelAlong_iff (v : Gathered K) (f : Point3d K → K) :
    LevelAlong fns v f ↔ v.flat fns f = true ∧ v.nearLine f = true := by
  rw [flat_iff, nearLine_iff]
  unfold LevelAlong Gathered.slopez
  rw [← spread_iff]
  by_cases hspread : cov f f v.points = 0
  · simp [hspread]
  · rw [if_neg hspread]
    constructor
    · rintro ⟨-, m, c, hbest, hflat, hnear⟩
      obtain ⟨rfl, rfl⟩ := (best_iff hspread).1 hbest
      exact ⟨⟨_, rfl, hflat⟩, _, rfl, hnear⟩
    · rintro ⟨⟨m, hm, hflat⟩, m', hm', hnear⟩
      obtain rfl := Option.some.inj hm
      obtain rfl := Option.some.inj hm'
      exact ⟨hspread, _, _, fit_best hspread Point3d.z, hflat, hnear⟩

/-- With exact numbers the four checks on the sums of one pass are tests of the
two lines of least squares. -/
theorem isLevel_iff (v : Gathered K) :
    v.isLevel fns = true ↔ LevelAlong fns v Point3d.x ∧ LevelAlong fns v Point3d.y := by
  rw [levelAlong_iff, levelAlong_iff]
  unfold Gathered.isLevel
  simp only [Bool.and_eq_true]
  tauto

/-- Near zero an angle is its tangent. -/
def sampleFns : FloatFns ℚ := ⟨fun m => m, fun x => x.num.tdiv x.den⟩

/-- Three points of a floor. -/
theorem isLevel_iff_floor :
    LevelAlong sampleFns ⟨[⟨0, 900, -1000⟩, ⟨10, 900, -1000⟩, ⟨0, 910, -1000⟩], 2700⟩ Point3d.x ∧
      LevelAlong sampleFns ⟨[⟨0, 900, -1000⟩, ⟨10, 900, -1000⟩, ⟨0, 910, -1000⟩], 2700⟩
        Point3d.y :=
  (isLevel_iff _).1 (by decide +kernel)

end Level

/-! ## A robot that stands elsewhere -/

def Point3d.move (dx dy : K) (p : Point3d K) : Point3d K := ⟨p.x + dx, p.y + dy, p.z⟩

def MinoPose.move (dx dy : K) (minostate : MinoPose K) : MinoPose K :=
  { minostate with x := minostate.x + dx, y := minostate.y + dy }

def Gathered.move (dx dy : K) (v : Gathered K) : Gathered K :=
  { v with points := v.points.map (Point3d.move dx dy) }

omit [LinearOrder K] in
theorem gather_move (minostate : MinoPose K) (dx dy : K) (block : List (DepthPixel K)) :
    gather (ComMapFrame.toWorld (minostate.move dx dy)) decodeKinectDist block =
      (gather (ComMapFrame.toWorld minostate) decodeKinectDist block).move dx dy := by
  have hpoint : ∀ r : Point3d K, ComMapFrame.toWorld (minostate.move dx dy) r =
      (ComMapFrame.toWorld minostate r).move dx dy := by
    intro r
    simp only [ComMapFrame.toWorld, MinoPose.move, Point3d.move, add_assoc]
  have hpoints : blockPoints (ComMapFrame.toWorld (minostate.move dx dy)) decodeKinectDist block =
      (blockPoints (ComMapFrame.toWorld minostate) decodeKinectDist block).map
        (Option.map (Point3d.move dx dy)) := by
    unfold blockPoints
    rw [List.map_map]
    apply List.map_congr_left
    intro px _
    rw [Function.comp_apply, hpoint]
    split <;> rfl
  unfold gather Gathered.move
  rw [hpoints, List.reduceOption_map]

section Moved

variable [IsStrictOrderedRing K]

/-- The tests of one side do not see that all points have moved. -/
theorem tests_moved (fns : FloatFns K) (v : Gathered K) (dx dy : K) {a : K} {f : Point3d K → K}
    (hf : ∀ p, f (Point3d.move dx dy p) = f p + a) :
    (v.move dx dy).flat fns f = v.flat fns f ∧ (v.move dx dy).nearLine f = v.nearLine f := by
  by_cases hnone : v.points = []
  · have hsame : v.move dx dy = v := by
      unfold Gathered.move
      rw [hnone, List.map_nil, ← hnone]
    rw [hsame]
    exact ⟨rfl, rfl⟩
  have hz : ∀ p : Point3d K, (Point3d.move dx dy p).z = p.z + 0 := fun p => (add_zero p.z).symm
  have hcov : cov f f (v.move dx dy).points = cov f f v.points := by
    show cov f f (v.points.map _) = _
    rw [cov_map]
    simp only [hf, cov_add hnone]
  have hslopez : (v.move dx dy).slopez f = v.slopez f := by
    have hslope : slope f Point3d.z (v.points.map (Point3d.move dx dy)) =
        slope f Point3d.z v.points := by
      rw [slope_map]
      simp only [hf, hz, slope_add hnone]
    unfold Gathered.slopez
    rw [hcov]
    show (if _ then none else some (slope f Point3d.z (v.points.map _))) = _
    rw [hslope]
  have hfit : residual f Point3d.z (slope f Point3d.z (v.points.map (Point3d.move dx dy)))
      (intercept f Point3d.z (v.points.map (Point3d.move dx dy)))
      (v.points.map (Point3d.move dx dy)) =
        residual f Point3d.z (slope f Point3d.z v.points) (intercept f Point3d.z v.points)
          v.points := by
    rw [slope_map, intercept_map, residual_map]
    simp only [hf, hz, residual_fit_add hnone]
  refine ⟨by unfold Gathered.flat; rw [hslopez], ?_⟩
  unfold Gathered.nearLine Gathered.slopez
  rw [hcov]
  by_cases hspread : cov f f v.points = 0
  · rw [if_pos hspread, if_pos hspread]
    rfl
  · rw [if_neg hspread, if_neg hspread, Option.any_some, Option.any_some, decide_eq_decide]
    show residual f Point3d.z (slope f Point3d.z (v.points.map _))
      (intercept f Point3d.z (v.points.map _)) (v.points.map _) * (50000 : ℕ) <
        (v.points.map _).length * quickSquare (v.avgDist / (100 : ℕ)) ↔ _
    rw [hfit, List.length_map]
    rfl

/-- With exact numbers a robot that stands elsewhere, and looks the same way,
takes a block for the same, and updates the point of the mean that is moved as
far. -/
theorem update_moved (minostate : MinoPose K) (dx dy : K) (block : List (DepthPixel K)) :
    (gather (ComMapFrame.toWorld (minostate.move dx dy)) decodeKinectDist block).update fns =
      if (gather (ComMapFrame.toWorld minostate) decodeKinectDist block).points.length ≤ 48 then
        none
      else some
        { x := fns.toInt
            (((gather (ComMapFrame.toWorld minostate) decodeKinectDist block).avg3d.x + dx) / 300)
          y := fns.toInt
            (((gather (ComMapFrame.toWorld minostate) decodeKinectDist block).avg3d.y + dy) / 300)
          isOpen := (gather (ComMapFrame.toWorld minostate) decodeKinectDist block).isOpen fns } := by
  rw [gather_move]
  generalize gather (ComMapFrame.toWorld minostate) decodeKinectDist block = v
  have hlength : (v.move dx dy).points.length = v.points.length := List.length_map _
  unfold Gathered.update
  rw [hlength]
  split
  · rfl
  · rename_i hmany
    have hsome : v.points ≠ [] := by
      rintro hnil
      rw [hnil] at hmany
      exact hmany (Nat.zero_le _)
    obtain ⟨hflatx, hnearx⟩ := tests_moved fns v dx dy (f := Point3d.x) fun p => rfl
    obtain ⟨hflaty, hneary⟩ := tests_moved fns v dx dy (f := Point3d.y) fun p => rfl
    have hx : (v.move dx dy).avg3d.x = v.avg3d.x + dx := by
      show mean Point3d.x (v.points.map _) = _
      rw [mean_map]
      exact mean_add hsome Point3d.x dx
    have hy : (v.move dx dy).avg3d.y = v.avg3d.y + dy := by
      show mean Point3d.y (v.points.map _) = _
      rw [mean_map]
      exact mean_add hsome Point3d.y dy
    have hz : (v.move dx dy).avg3d.z = v.avg3d.z := by
      show mean Point3d.z (v.points.map _) = _
      rw [mean_map]
      rfl
    have hopen : (v.move dx dy).isOpen fns = v.isOpen fns := by
      unfold Gathered.isOpen Gathered.isLevel
      rw [hflatx, hflaty, hnearx, hneary, hz]
    have hinches : ((3 * 100 : ℕ) : K) = 300 := by norm_num
    rw [hx, hy, hopen, hinches]

/-- All pixels straight ahead, nine hundred away. -/
def wallPixel : DepthPixel ℚ := ⟨0x00, 0x03, ⟨0, 0⟩⟩

/-- The robot has gone six hundred to the side. -/
theorem update_moved_wall :
    (gather (ComMapFrame.toWorld (MinoPose.move 600 0 ⟨0, 0, 1, 0⟩)) (fun _ => 900)
      (blockOf (fun _ _ => wallPixel) 7 9)).update sampleFns = some ⟨2, 3, false⟩ := by
  rw [update_moved]
  decide +kernel

end Moved

end Exact

/-! ## Runs -/

section Runs

variable [Zero K] [Add K] [Sub K] [Neg K] [Mul K] [Div K] [NatCast K] [LT K] [DecidableLT K]
  [DecidableEq K] {fns : FloatFns K} {decodeKinectDist : UInt16 → K}

/-- The updates of an action, block by block. -/
def updates (fns : FloatFns K) (decodeKinectDist : UInt16 → K) (shot : Shot K) : List Update :=
  if shot.depthCount ≤ 0 then []
  else (List.range (480 / 8)).flatMap fun y =>
    (List.range (640 / 8)).flatMap fun x => (blockUpdate fns decodeKinectDist shot y x).toList

theorem updateAll_append (sectors : Sectors) (us vs : List Update) :
    sectors.updateAll (us ++ vs) = (sectors.updateAll us).updateAll vs := by
  unfold Sectors.updateAll Cells.applyAll
  rw [List.foldl_append]

theorem foldl_updateAll {β : Type} (f : β → List Update) (xs : List β) (sectors : Sectors) :
    xs.foldl (fun sectors x => sectors.updateAll (f x)) sectors =
      sectors.updateAll (xs.flatMap f) := by
  induction xs generalizing sectors with
  | nil => rfl
  | cons x xs ih => rw [List.foldl_cons, ih, List.flatMap_cons, updateAll_append]

/-- The map behind an action. -/
theorem action_sectors (shot : Shot K) (st : Sectors × Frame) :
    (ComMapFrame.action fns decodeKinectDist shot st).2.1 =
      st.1.updateAll (updates fns decodeKinectDist shot) := by
  unfold ComMapFrame.action updates
  split
  · rfl
  · simp only [foldl_updateAll]

theorem actions_sectors (fns : FloatFns K) (decodeKinectDist : UInt16 → K) (shots : List (Shot K))
    (st : Sectors × Frame) :
    (ComMapFrame.actions fns decodeKinectDist shots st).1 =
      st.1.updateAll (shots.flatMap (updates fns decodeKinectDist)) := by
  induction shots generalizing st with
  | nil => rfl
  | cons shot shots ih =>
    show (ComMapFrame.actions fns decodeKinectDist shots _).1 = _
    rw [ih, action_sectors, List.flatMap_cons, updateAll_append]

/-- What the updates have seen at a place. -/
def seen (place : Coord × Int) (us : List Update) : List Bool :=
  (us.filter fun u => u.address = place).map Update.isOpen

theorem updateAll_place (outside : Sectors) (us : List Update) {place : Coord × Int}
    (hplace : InBlock place) :
    (Sectors.fresh outside).updateAll us place = Point.fresh.observeAll (seen place us) := by
  have hfresh : Sectors.fresh outside place = Point.fresh := if_pos hplace
  unfold Sectors.updateAll seen Point.observeAll
  rw [Cells.applyAll_apply, List.foldl_map, hfresh]
  rfl

/-- Updates in the arrays leave one memory behind. -/
theorem behind_updateAll (sectors : Sectors) {us : List Update} (h : ∀ u ∈ us, InBlock u.address) :
    sectors.Behind us (sectors.updateAll us) := by
  induction us using List.reverseRecOn with
  | nil => exact .nil
  | append_singleton us u ih =>
    rw [updateAll_append]
    exact .inside (ih fun v hv => h v (List.mem_append_left _ hv))
      (h u (List.mem_append_right _ List.mem_cons_self))

/-- Behind every run of the action whose updates stay in the arrays, a pixel away
from the marker is the number of open observations among the last 255 of its
point. -/
theorem action_shows (shots : List (Shot K)) {shot : Shot K} (hdepth : 0 < shot.depthCount)
    (hinside : ∀ u ∈ (shots ++ [shot]).flatMap (updates fns decodeKinectDist), InBlock u.address)
    (outside : Sectors) (frame : Frame) {py px : ℕ} (hpy : py < 480) (hpx : px < 640)
    (hmarker : ((px : Int) - 320, (py : Int) - 240) ≠
      (fns.toInt shot.minostate.x, fns.toInt shot.minostate.y)) :
    (Sectors.fresh outside).Behind ((shots ++ [shot]).flatMap (updates fns decodeKinectDist))
        (ComMapFrame.actions fns decodeKinectDist (shots ++ [shot])
          (Sectors.fresh outside, frame)).1 ∧
      (ComMapFrame.actions fns decodeKinectDist (shots ++ [shot])
          (Sectors.fresh outside, frame)).2 (py, px) =
        Pixel.gray (UInt8.ofNat (((Point.standIn ++ seen (shownCell py px).address
          ((shots ++ [shot]).flatMap (updates fns decodeKinectDist))).rtake 255).count true)) := by
  have hsectors := actions_sectors fns decodeKinectDist (shots ++ [shot])
    (Sectors.fresh outside, frame)
  refine ⟨?_, ?_⟩
  · rw [hsectors]
    exact behind_updateAll _ hinside
  have hframe : (ComMapFrame.actions fns decodeKinectDist (shots ++ [shot])
      (Sectors.fresh outside, frame)).2 =
        render (ComMapFrame.actions fns decodeKinectDist (shots ++ [shot])
          (Sectors.fresh outside, frame)).1 (fns.toInt shot.minostate.x)
            (fns.toInt shot.minostate.y)
            (ComMapFrame.actions fns decodeKinectDist shots (Sectors.fresh outside, frame)).2 := by
    unfold ComMapFrame.actions
    rw [List.foldl_append, List.foldl_cons, List.foldl_nil, ComMapFrame.action,
      if_neg (by omega)]
  rw [hframe, render_gray _ _ hpy hpx hmarker, hsectors,
    updateAll_place outside _ (shownCell_inArray py px).inBlock, ← opencount_observeAll,
    UInt8.ofNat_toNat]
  rfl

end Runs

/-- One frame of a wall: every block closes the same point, and its pixel is
black. -/
theorem action_shows_wall :
    (ComMapFrame.actions sampleFns (fun _ => 900) ([] ++ [⟨1, fun _ _ => wallPixel, ⟨0, 0, 1, 0⟩⟩])
      (Sectors.fresh fun _ => Point.fresh, fun _ => Pixel.marker)).2 (243, 320) =
        Pixel.gray 0 := by
  have hblock : ∀ y x, blockUpdate sampleFns (fun _ => 900)
      ⟨1, fun _ _ => wallPixel, ⟨0, 0, 1, 0⟩⟩ y x = some ⟨0, 3, false⟩ := by
    intro y x
    show blockUpdate sampleFns (fun _ => 900) ⟨1, fun _ _ => wallPixel, ⟨0, 0, 1, 0⟩⟩ 0 0 = _
    decide +kernel
  have hinside : ∀ u ∈ ([] ++ [⟨1, fun _ _ => wallPixel, ⟨0, 0, 1, 0⟩⟩] : List (Shot ℚ)).flatMap
      (updates sampleFns fun _ => 900), InBlock u.address := by
    intro u hu
    simp only [List.nil_append, List.flatMap_singleton, updates, hblock] at hu
    rw [if_neg (by decide)] at hu
    simp only [List.mem_flatMap, Option.toList_some, List.mem_singleton] at hu
    obtain ⟨-, -, -, -, rfl⟩ := hu
    decide
  rw [(action_shows [] (by decide) hinside _ _ (by decide) (by decide) (by decide +kernel)).2]
  simp only [List.nil_append, List.flatMap_singleton, updates, hblock]
  decide +kernel

end MinotaurRobot.Map
