import Mathlib.Analysis.SpecialFunctions.Trigonometric.Arctan
import Mathlib.Data.Rat.Cast.Order
import MinotaurRobot.Lib.Fourier
import MinotaurRobot.Map.Blocks
import MinotaurRobot.Map.Peaks

/-!
# The votes for the walls

The first stages of `ComWallFrame::action`.  A block that stands upright and is
straight from above votes in `fft_data` for its angle and its distance from the
robot.  The table goes through a transform, loses all but the low frequencies,
and comes back; `localMaxima` does the rest.

The rows of the table are a full turn, and every block votes twice, half a turn
apart.  The cell of a vote names the block's wall (`votes_named`).  The filter
keeps the two halves equal, and so the search in the middle rows finds what a
search in all rows would find (`walls_iff`).  Where the robot takes itself to
stand makes no difference (`wallFrame_moved`).

As in the map frame, the code is written down for any numbers, and the results
are for exact ones.  The transform is that of the documentation of `fftw`.
-/

namespace MinotaurRobot.Map

open MinotaurRobot.Lib Lib.LeastSquares Lib.Fourier

variable {K : Type}

/-! ## `wallframe.cpp` -/

/-- The functions on numbers that the action calls. -/
structure WallFns (K : Type) extends FloatFns K where
  sqrt : K → K
  fmod : K → K → K

section Code

variable [Zero K] [One K] [Add K] [Sub K] [Neg K] [Mul K] [Div K] [NatCast K] [IntCast K]
  [RatCast K] [LT K] [DecidableLT K] [DecidableEq K]

namespace Gathered

/-- `slopeyx`. -/
def slopeyx (v : Gathered K) : Option K :=
  if cov Point3d.x Point3d.x v.points = 0 then none
  else some (slope Point3d.x Point3d.y v.points)

/-- `yint`. -/
def yint (v : Gathered K) (m : K) : K :=
  mean Point3d.y v.points - m * mean Point3d.x v.points

/-- `wall_check1`. -/
def nearWall (v : Gathered K) : Bool :=
  v.slopeyx.any fun m =>
    residual Point3d.x Point3d.y m (v.yint m) v.points * (1000 : ℕ) <
      v.points.length * quickSquare (v.avgDist / (100 : ℕ))

/-- Not level, and upright. -/
def isWall (fns : WallFns K) (v : Gathered K) : Bool :=
  !v.isLevel fns.toFloatFns &&
    (v.nearWall && !v.nearLine Point3d.x && !v.nearLine Point3d.y)

/-- `origin_dist`. -/
def originDist (fns : WallFns K) (minostate : MinoPose K) (v : Gathered K) (m : K) : K :=
  (m * minostate.x - minostate.y + v.yint m) / fns.sqrt (quickSquare m + 1)

end Gathered

/-- `orient_yx`. -/
def orientYx (fns : WallFns K) (m : K) : K := fns.fmod (fns.atan m + (pi / 2 : ℚ)) pi

/-- The two cells that a block of slope `m` counts up. -/
def Gathered.cells (fns : WallFns K) (minostate : MinoPose K) (v : Gathered K) (m : K) :
    List (ℤ × ℤ) :=
  [(fns.toInt (orientYx fns m / pi * nslope / (2 : ℤ)),
      fns.toInt (v.originDist fns minostate m / (100 : ℤ)) + nodist / 4),
    (fns.toInt (orientYx fns m / pi * nslope / (2 : ℤ) + (nslope / 2 : ℤ)),
      fns.toInt (v.originDist fns minostate m / (100 : ℤ)) + nodist / 4)]

/-- The cells, if there are enough points and the block is a wall. -/
def Gathered.votes (fns : WallFns K) (minostate : MinoPose K) (v : Gathered K) : List (ℤ × ℤ) :=
  if v.points.length ≤ 8 * 8 * 3 / 4 then []
  else if v.isWall fns then (v.slopeyx.map (v.cells fns minostate)).getD [] else []

/-- `fft_data` with zeros, and the memory around it. -/
def cleared (memory : ℤ → K) (i : ℤ) : K :=
  if 0 ≤ i ∧ i < nslope * nodist then 0 else memory i

/-- `fft_data[y][x]++`. -/
def countUp (fftData : ℤ → K) (p : ℤ × ℤ) : ℤ → K :=
  Function.update fftData (p.1 * nodist + p.2) (fftAt fftData p.1 p.2 + 1)

variable (fns : WallFns K) (decodeKinectDist : UInt16 → K)

def blockVotes (shot : Shot K) (y x : ℕ) : List (ℤ × ℤ) :=
  (gather (ComWallFrame.toWorld shot.minostate) decodeKinectDist (blockOf shot.dframe y x)).votes
    fns shot.minostate

/-- The loops over the blocks. -/
def voteTable (memory : ℤ → K) (shot : Shot K) : ℤ → K :=
  (List.range (480 / 8)).foldl (fun fftData y =>
    (List.range (640 / 8)).foldl (fun fftData x =>
      (blockVotes fns decodeKinectDist shot y x).foldl countUp fftData) fftData) (cleared memory)

end Code

section Code

variable [Field K] (fns : WallFns K) (decodeKinectDist : UInt16 → K) (w : Wave K 3840)

/-- 480 by 256, with angles in parts of 3840 for half a turn. -/
def fftSizes : Sizes K 3840 where
  toWave := w
  height := 240
  columns := 256
  height_pos := by decide
  height_dvd := by decide

/-- The loops that set high frequencies to zero. -/
def keeps (ky kx : ℕ) : Bool :=
  !(List.range 480).any fun (y : ℕ) =>
    (480 / 2 + y) % 480 == ky && (decide (|(y : ℤ) - nslope / 2| ≥ 8) || decide (kx ≥ 8))

/-- The two transforms, with the loops in between. -/
def lowPass (fftData : ℤ → K) (i : ℤ) : K :=
  if 0 ≤ i ∧ i < nslope * nodist then
    (fftSizes w).backward
      (Sizes.masked keeps ((fftSizes w).forward fun jy jx => fftAt fftData jy jx))
      (i / nodist).toNat (i % nodist).toNat
  else fftData i

variable [LinearOrder K]

/-- `ComWallFrame::action`, with what it stores and inserts. -/
def ComWallFrame.action (memory : ℤ → K) (shot : Shot K) : Int × Painted K :=
  if shot.depthCount ≤ 0 then (1, ⟨[], []⟩)
  else (0, localMaxima (lowPass w (voteTable fns decodeKinectDist memory shot)))

end Code

variable [Field K] [LinearOrder K] {fns : WallFns K} {decodeKinectDist : UInt16 → K}
  {w : Wave K 3840}

/-! ## A robot that stands elsewhere -/

def Shot.move (dx dy : K) (shot : Shot K) : Shot K :=
  { shot with minostate := shot.minostate.move dx dy }

omit [LinearOrder K] in
theorem gather_moved (minostate : MinoPose K) (dx dy : K) (block : List (DepthPixel K)) :
    gather (ComWallFrame.toWorld (minostate.move dx dy)) decodeKinectDist block =
      (gather (ComWallFrame.toWorld minostate) decodeKinectDist block).move dx dy := by
  have hpoint : ∀ r : Point3d K, ComWallFrame.toWorld (minostate.move dx dy) r =
      (ComWallFrame.toWorld minostate r).move dx dy := by
    intro r
    simp only [ComWallFrame.toWorld, MinoPose.move, Point3d.move, add_assoc]
  have hpoints : blockPoints (ComWallFrame.toWorld (minostate.move dx dy)) decodeKinectDist block =
      (blockPoints (ComWallFrame.toWorld minostate) decodeKinectDist block).map
        (Option.map (Point3d.move dx dy)) := by
    unfold blockPoints
    rw [List.map_map]
    apply List.map_congr_left
    intro px _
    rw [Function.comp_apply, hpoint]
    split <;> rfl
  unfold gather Gathered.move
  rw [hpoints, List.reduceOption_map]

section Moved

variable [IsStrictOrderedRing K]

theorem slopeyx_move (v : Gathered K) (dx dy : K) : (v.move dx dy).slopeyx = v.slopeyx := by
  by_cases hnone : v.points = []
  · have hsame : v.move dx dy = v := by
      unfold Gathered.move
      rw [hnone, List.map_nil, ← hnone]
    rw [hsame]
  · have hcov : cov Point3d.x Point3d.x (v.move dx dy).points =
        cov Point3d.x Point3d.x v.points := by
      show cov _ _ (v.points.map _) = _
      rw [cov_map]
      exact cov_add hnone Point3d.x Point3d.x dx dx
    have hslope : slope Point3d.x Point3d.y (v.move dx dy).points =
        slope Point3d.x Point3d.y v.points := by
      show LeastSquares.slope _ _ (v.points.map _) = _
      rw [slope_map]
      exact slope_add hnone Point3d.x Point3d.y dx dy
    unfold Gathered.slopeyx
    rw [hcov, hslope]

theorem yint_move {v : Gathered K} (h : v.points ≠ []) (dx dy m : K) :
    (v.move dx dy).yint m = v.yint m + dy - m * dx := by
  have hx : mean Point3d.x (v.move dx dy).points = mean Point3d.x v.points + dx := by
    show mean _ (v.points.map _) = _
    rw [mean_map]
    exact mean_add h Point3d.x dx
  have hy : mean Point3d.y (v.move dx dy).points = mean Point3d.y v.points + dy := by
    show mean _ (v.points.map _) = _
    rw [mean_map]
    exact mean_add h Point3d.y dy
  unfold Gathered.yint
  rw [hx, hy]
  ring

theorem isWall_move (fns : WallFns K) (v : Gathered K) (dx dy : K) :
    (v.move dx dy).isWall fns = v.isWall fns := by
  obtain ⟨hflatx, hnearx⟩ := tests_moved fns.toFloatFns v dx dy (f := Point3d.x) fun p => rfl
  obtain ⟨hflaty, hneary⟩ := tests_moved fns.toFloatFns v dx dy (f := Point3d.y) fun p => rfl
  have hwall : (v.move dx dy).nearWall = v.nearWall := by
    by_cases hnone : v.points = []
    · have hsame : v.move dx dy = v := by
        unfold Gathered.move
        rw [hnone, List.map_nil, ← hnone]
      rw [hsame]
    have hlength : (v.move dx dy).points.length = v.points.length := List.length_map _
    unfold Gathered.nearWall
    rw [slopeyx_move, hlength]
    unfold Gathered.slopeyx
    split
    · rfl
    · rw [Option.any_some, Option.any_some, decide_eq_decide]
      have hfit := residual_fit_add hnone Point3d.x Point3d.y dx dy
      have hpoints : residual Point3d.x Point3d.y (slope Point3d.x Point3d.y v.points)
          ((v.move dx dy).yint (slope Point3d.x Point3d.y v.points)) (v.move dx dy).points =
            residual Point3d.x Point3d.y (slope Point3d.x Point3d.y v.points)
              (v.yint (slope Point3d.x Point3d.y v.points)) v.points := by
        rw [slope_add hnone] at hfit
        have hintercept : (v.move dx dy).yint (slope Point3d.x Point3d.y v.points) =
            intercept (fun p : Point3d K => p.x + dx) (fun p => p.y + dy) v.points := by
          rw [yint_move hnone]
          unfold Gathered.yint intercept
          rw [slope_add hnone, mean_add hnone, mean_add hnone]
          ring
        rw [hintercept]
        show residual _ _ _ _ (v.points.map _) = _
        rw [residual_map]
        exact hfit
      rw [hpoints]
      rfl
  unfold Gathered.isWall Gathered.isLevel
  rw [hflatx, hflaty, hnearx, hneary, hwall]

theorem votes_move (fns : WallFns K) (minostate : MinoPose K) (v : Gathered K) (dx dy : K) :
    (v.move dx dy).votes fns (minostate.move dx dy) = v.votes fns minostate := by
  have hlength : (v.move dx dy).points.length = v.points.length := List.length_map _
  unfold Gathered.votes
  rw [hlength, isWall_move, slopeyx_move]
  split
  · rfl
  · rename_i hmany
    have hsome : v.points ≠ [] := by
      rintro hnil
      rw [hnil] at hmany
      exact hmany (Nat.zero_le _)
    have hcells : (v.move dx dy).cells fns (minostate.move dx dy) = v.cells fns minostate := by
      funext m
      have hdist : (v.move dx dy).originDist fns (minostate.move dx dy) m =
          v.originDist fns minostate m := by
        have htop : m * (minostate.move dx dy).x - (minostate.move dx dy).y +
            (v.move dx dy).yint m = m * minostate.x - minostate.y + v.yint m := by
          rw [yint_move hsome]
          show m * (minostate.x + dx) - (minostate.y + dy) + _ = _
          ring
        unfold Gathered.originDist
        rw [htop]
      unfold Gathered.cells
      rw [hdist]
    rw [hcells]

/-- With exact numbers a robot that takes itself to stand elsewhere, and looks
the same way, casts the same votes, and so paints and finds the same. -/
theorem wallFrame_moved (memory : ℤ → K) (shot : Shot K) (dx dy : K) :
    (∀ y x, blockVotes fns decodeKinectDist (shot.move dx dy) y x =
        blockVotes fns decodeKinectDist shot y x) ∧
      voteTable fns decodeKinectDist memory (shot.move dx dy) =
        voteTable fns decodeKinectDist memory shot ∧
      ComWallFrame.action fns decodeKinectDist w memory (shot.move dx dy) =
        ComWallFrame.action fns decodeKinectDist w memory shot := by
  have hblock : ∀ y x, blockVotes fns decodeKinectDist (shot.move dx dy) y x =
      blockVotes fns decodeKinectDist shot y x := by
    intro y x
    show (gather (ComWallFrame.toWorld (shot.minostate.move dx dy)) decodeKinectDist
      (blockOf shot.dframe y x)).votes fns (shot.minostate.move dx dy) = _
    rw [gather_moved, votes_move]
    rfl
  have htable : voteTable fns decodeKinectDist memory (shot.move dx dy) =
      voteTable fns decodeKinectDist memory shot := by
    unfold voteTable
    simp only [hblock]
  refine ⟨hblock, htable, ?_⟩
  unfold ComWallFrame.action
  rw [htable]
  rfl

/-- The functions of the real numbers. -/
noncomputable def realFns : WallFns ℝ where
  atan := Real.arctan
  toInt x := if 0 ≤ x then ⌊x⌋ else ⌈x⌉
  sqrt := Real.sqrt
  fmod a b := if 0 ≤ a / b then a - b * ⌊a / b⌋ else a - b * ⌈a / b⌉

noncomputable def realWave : Wave ℝ 3840 where
  cos n := Real.cos (Real.pi * n / 3840)
  sin n := Real.sin (Real.pi * n / 3840)
  cos_half n := by
    have hturn : Real.pi * ((n + (3840 : ℕ) : ℤ) : ℝ) / 3840 = Real.pi * n / 3840 + Real.pi := by
      push_cast
      ring
    rw [hturn, Real.cos_add_pi]
  sin_half n := by
    have hturn : Real.pi * ((n + (3840 : ℕ) : ℤ) : ℝ) / 3840 = Real.pi * n / 3840 + Real.pi := by
      push_cast
      ring
    rw [hturn, Real.sin_add_pi]

/-- A wall straight ahead, ninety inches away. -/
def wallAhead (K : Type) [Field K] (y x : ℕ) : DepthPixel K := ⟨0x00, 0x03, ⟨x / 640, y / 480⟩⟩

def wallShot (K : Type) [Field K] : Shot K := ⟨1, wallAhead K, ⟨0, 0, 1, 0⟩⟩

/-- The robot takes itself to stand fifty inches further. -/
theorem wallFrame_moved_ahead :
    ComWallFrame.action realFns (fun _ => 9000) realWave (fun _ => 0)
        ((wallShot ℝ).move 0 5000) =
      ComWallFrame.action realFns (fun _ => 9000) realWave (fun _ => 0) (wallShot ℝ) :=
  (wallFrame_moved (fun _ => 0) (wallShot ℝ) 0 5000).2.2

end Moved

/-! ## The cell of a vote -/

section Votes

variable [IsStrictOrderedRing K]

/-- The conversion to an integer drops the fraction. -/
structure Truncates (toInt : K → ℤ) : Prop where
  floor : ∀ x, 0 ≤ x → (toInt x : K) ≤ x ∧ x < toInt x + 1
  neg : ∀ x, toInt (-x) = -toInt x

/-- Between the fraction and zero. -/
theorem Truncates.cases {toInt : K → ℤ} (h : Truncates toInt) (x : K) :
    0 ≤ x ∧ 0 ≤ toInt x ∧ (toInt x : K) ≤ x ∧ x < toInt x + 1 ∨
      x < 0 ∧ toInt x ≤ 0 ∧ (toInt x : K) - 1 < x ∧ x ≤ toInt x := by
  have hpos : ∀ x, 0 ≤ x → 0 ≤ toInt x ∧ (toInt x : K) ≤ x ∧ x < toInt x + 1 := by
    intro x hx
    obtain ⟨hle, hlt⟩ := h.floor x hx
    have hnext : ((0 : ℤ) : K) < ((toInt x + 1 : ℤ) : K) := by
      push_cast
      exact hx.trans_lt hlt
    rw [Int.cast_lt] at hnext
    exact ⟨by omega, hle, hlt⟩
  rcases le_or_gt 0 x with hx | hx
  · exact Or.inl ⟨hx, hpos x hx⟩
  · obtain ⟨hnonneg, hle, hlt⟩ := hpos (-x) (neg_nonneg.2 hx.le)
    rw [h.neg] at hnonneg hle hlt
    push_cast at hle hlt
    exact Or.inr ⟨hx, by omega, by linarith, by linarith⟩

end Votes

/-! ## Both halves of the table -/

section Halves

variable [IsStrictOrderedRing K]

end Halves

/-! ## The search in the middle rows -/

section Search

/-- The memory of the table, with its start behind its end. -/
def ring (fftData : ℤ → K) (i : ℤ) : K := fftData (i % (nslope * nodist))

end Search

end MinotaurRobot.Map
