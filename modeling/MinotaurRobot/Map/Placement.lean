import Mathlib.Algebra.Field.Basic
import Mathlib.Algebra.Field.Rat
import Mathlib.Data.Rat.Defs
import Mathlib.Tactic.Common
import Mathlib.Tactic.LinearCombination
import Mathlib.Tactic.NormNum
import Mathlib.Tactic.Ring

/-!
# From the camera to the world

`ComMapFrame` and `ComWallFrame` walk over the depth picture in blocks of eight
by eight pixels, in two copies of one loop.  Every usable pixel is decoded to
a distance, `x3d`, `y3d` and `z3d` make it a point in front of the robot, and
the pose of the robot takes this point to the world.

The last step differs.  `ComWallFrame` turns the point by the orientation of
the robot, which keeps all distances.  `ComMapFrame` multiplies each coordinate
with both `cos_ori` and `sin_ori` and never mixes the two; `mapFrame_toWorld_iff`
says for which points that is the same.  The code is written down for any
numbers that can be added and multiplied.  The results are for those of a field
`K`, and the angles are a pair of numbers whose squares add up to one.
-/

namespace MinotaurRobot.Map

variable {K : Type}

/-! ## `mapframe.cpp` and `wallframe.cpp` -/

section Code

variable [Add K] [Sub K] [Mul K]

/-- What the actions read of `MinotaurState`, with `cos_ori` and `sin_ori`. -/
structure MinoPose (K : Type) where
  x : K
  y : K
  cosOri : K
  sinOri : K

/-- A point of `p3d`, or `rx`, `ry` and `rz`. -/
structure Point3d (K : Type) where
  x : K
  y : K
  z : K
  deriving DecidableEq, Repr

/-- `p3d[yo][xo]` in `ComMapFrame::action`. -/
def ComMapFrame.toWorld (minostate : MinoPose K) (r : Point3d K) : Point3d K :=
  { x := r.x * minostate.cosOri + r.x * minostate.sinOri + minostate.x
    y := r.y * minostate.cosOri - r.y * minostate.sinOri + minostate.y
    z := r.z }

/-- `p3d[yo][xo]` in `ComWallFrame::action`, and in the version of
`ComMapFrame::action` that is commented out. -/
def ComWallFrame.toWorld (minostate : MinoPose K) (r : Point3d K) : Point3d K :=
  { x := r.x * minostate.cosOri - r.y * minostate.sinOri + minostate.x
    y := r.x * minostate.sinOri + r.y * minostate.cosOri + minostate.y
    z := r.z }

/-- `Kinect::Spherical`. -/
structure Spherical (K : Type) where
  sinAzi : K
  tanInc : K

def Spherical.x3d (sc : Spherical K) (d : K) : K := d * sc.sinAzi

def Spherical.y3d (_sc : Spherical K) (d : K) : K := d

def Spherical.z3d (sc : Spherical K) (d : K) : K := d * sc.tanInc

/-- The two bytes of a pixel, with the entry of `sphericals` for its place. -/
structure DepthPixel (K : Type) where
  d0 : UInt8
  d1 : UInt8
  sc : Spherical K

namespace DepthPixel

/-- `d`. -/
def depth (px : DepthPixel K) : UInt16 := px.d1.toUInt16 <<< 8 ||| px.d0.toUInt16

/-- The test of both loops, with `KINECT_CALIB_DOFF`. -/
def IsValid (px : DepthPixel K) : Prop := px.depth ≠ 0x07FF ∧ px.depth ≤ 1028

instance (px : DepthPixel K) : Decidable px.IsValid := inferInstanceAs (Decidable (_ ∧ _))

/-- `rx`, `ry` and `rz`. -/
def fromRobot (decodeKinectDist : UInt16 → K) (px : DepthPixel K) : Point3d K :=
  let fd := decodeKinectDist px.depth
  { x := px.sc.x3d fd
    y := px.sc.y3d fd
    z := px.sc.z3d fd }

end DepthPixel

/-- `p3d` and `valid_points` of one block, the pixels in the order of the loops. -/
def blockPoints (toWorld : Point3d K → Point3d K) (decodeKinectDist : UInt16 → K)
    (block : List (DepthPixel K)) : List (Option (Point3d K)) :=
  block.map fun px => if px.IsValid then some (toWorld (px.fromRobot decodeKinectDist)) else none

end Code

/-! ## The two transforms -/

variable [Field K]

def Point3d.sqDist (p q : Point3d K) : K :=
  (p.x - q.x) ^ 2 + (p.y - q.y) ^ 2 + (p.z - q.z) ^ 2

variable {minostate : MinoPose K} {p q : Point3d K}

/-- The pose stands for an angle. -/
def MinoPose.IsAngle (minostate : MinoPose K) : Prop :=
  minostate.cosOri ^ 2 + minostate.sinOri ^ 2 = 1

theorem wallFrame_sqDist (h : minostate.IsAngle) (p q : Point3d K) :
    (ComWallFrame.toWorld minostate p).sqDist (ComWallFrame.toWorld minostate q) = p.sqDist q := by
  unfold MinoPose.IsAngle at h
  simp only [Point3d.sqDist, ComWallFrame.toWorld]
  linear_combination ((p.x - q.x) ^ 2 + (p.y - q.y) ^ 2) * h

/-- Both coordinates are off by the same amount, up to sign. -/
theorem toWorld_sub (minostate : MinoPose K) (r : Point3d K) :
    (ComMapFrame.toWorld minostate r).x - (ComWallFrame.toWorld minostate r).x =
        minostate.sinOri * (r.x + r.y) ∧
      (ComWallFrame.toWorld minostate r).y - (ComMapFrame.toWorld minostate r).y =
        minostate.sinOri * (r.x + r.y) := by
  simp only [ComMapFrame.toWorld, ComWallFrame.toWorld]
  constructor <;> ring

theorem toWorld_eq_iff (minostate : MinoPose K) (r : Point3d K) :
    ((ComMapFrame.toWorld minostate r).x = (ComWallFrame.toWorld minostate r).x ∧
        (ComMapFrame.toWorld minostate r).y = (ComWallFrame.toWorld minostate r).y) ↔
      minostate.sinOri = 0 ∨ r.x + r.y = 0 := by
  obtain ⟨hx, hy⟩ := toWorld_sub minostate r
  rw [← mul_eq_zero]
  constructor
  · rintro ⟨heq, -⟩
    rw [← hx, heq, sub_self]
  · intro hzero
    rw [hzero] at hx hy
    exact ⟨sub_eq_zero.1 hx, (sub_eq_zero.1 hy).symm⟩

theorem toWorld_eq {r : Point3d K} (h : minostate.sinOri = 0 ∨ r.x + r.y = 0) :
    ComMapFrame.toWorld minostate r = ComWallFrame.toWorld minostate r := by
  obtain ⟨hx, hy⟩ := (toWorld_eq_iff minostate r).2 h
  rw [Point3d.mk.injEq]
  exact ⟨hx, hy, rfl⟩

/-- The two actions put both points at the same places, and both transforms
keep their distance. -/
def SamePlaceRigidly (minostate : MinoPose K) (p q : Point3d K) : Prop :=
  ((ComMapFrame.toWorld minostate p).x = (ComWallFrame.toWorld minostate p).x ∧
      (ComMapFrame.toWorld minostate p).y = (ComWallFrame.toWorld minostate p).y) ∧
    ((ComMapFrame.toWorld minostate q).x = (ComWallFrame.toWorld minostate q).x ∧
      (ComMapFrame.toWorld minostate q).y = (ComWallFrame.toWorld minostate q).y) ∧
    (ComMapFrame.toWorld minostate p).sqDist (ComMapFrame.toWorld minostate q) = p.sqDist q ∧
    (ComWallFrame.toWorld minostate p).sqDist (ComWallFrame.toWorld minostate q) = p.sqDist q

/-- The actions agree on two points, and move them rigidly, exactly if the
robot looks along the axis or both points lie on one diagonal of the camera. -/
theorem mapFrame_toWorld_iff (h : minostate.IsAngle) (p q : Point3d K) :
    SamePlaceRigidly minostate p q ↔
      minostate.sinOri = 0 ∨ (p.x + p.y = 0 ∧ q.x + q.y = 0) := by
  unfold SamePlaceRigidly
  rw [toWorld_eq_iff, toWorld_eq_iff, or_and_left]
  constructor
  · rintro ⟨hp, hq, -, -⟩
    exact ⟨hp, hq⟩
  · rintro ⟨hp, hq⟩
    have hrigid := wallFrame_sqDist h p q
    have hsame : (ComMapFrame.toWorld minostate p).sqDist (ComMapFrame.toWorld minostate q) =
        (ComWallFrame.toWorld minostate p).sqDist (ComWallFrame.toWorld minostate q) := by
      rw [toWorld_eq hp, toWorld_eq hq]
    exact ⟨hp, hq, hsame.trans hrigid, hrigid⟩

theorem mapFrame_toWorld_iff_ahead :
    SamePlaceRigidly (⟨5, 7, -1, 0⟩ : MinoPose ℚ) ⟨1, 2, 3⟩ ⟨4, 5, 6⟩ :=
  have hangle : MinoPose.IsAngle (⟨5, 7, -1, 0⟩ : MinoPose ℚ) := by norm_num [MinoPose.IsAngle]
  (mapFrame_toWorld_iff hangle _ _).2 (Or.inl rfl)

/-- A robot that has turned by a quarter, and the point one unit ahead. -/
theorem mapFrame_toWorld_turned :
    ¬ ∀ (minostate : MinoPose ℚ), minostate.IsAngle → ∀ p q : Point3d ℚ,
      SamePlaceRigidly minostate p q := by
  intro hall
  have hsame := (hall ⟨0, 0, 0, 1⟩ (by norm_num [MinoPose.IsAngle]) ⟨0, 1, 0⟩ ⟨0, 0, 0⟩).1.1
  norm_num [ComMapFrame.toWorld, ComWallFrame.toWorld] at hsame

/-! ## One block of pixels -/

theorem fromRobot_diagonal (decodeKinectDist : UInt16 → K) {px : DepthPixel K}
    (hview : px.sc.sinAzi + 1 ≠ 0) :
    (px.fromRobot decodeKinectDist).x + (px.fromRobot decodeKinectDist).y = 0 ↔
      decodeKinectDist px.depth = 0 := by
  have hsum : (px.fromRobot decodeKinectDist).x + (px.fromRobot decodeKinectDist).y =
      decodeKinectDist px.depth * (px.sc.sinAzi + 1) := by
    show decodeKinectDist px.depth * px.sc.sinAzi + decodeKinectDist px.depth = _
    ring
  rw [hsum, mul_eq_zero, or_iff_left hview]

/-- The two copies of the loop fill a block alike exactly if the robot looks
along the axis or no valid pixel has a distance: a camera that sees less than
a half circle has no pixel on the diagonal. -/
theorem blockPoints_eq_iff (minostate : MinoPose K) (decodeKinectDist : UInt16 → K)
    {block : List (DepthPixel K)} (hview : ∀ px ∈ block, px.sc.sinAzi + 1 ≠ 0) :
    blockPoints (ComMapFrame.toWorld minostate) decodeKinectDist block =
        blockPoints (ComWallFrame.toWorld minostate) decodeKinectDist block ↔
      minostate.sinOri = 0 ∨ ∀ px ∈ block, px.IsValid → decodeKinectDist px.depth = 0 := by
  unfold blockPoints
  rw [List.map_inj_left]
  constructor
  · intro hsame
    by_cases hahead : minostate.sinOri = 0
    · exact Or.inl hahead
    · right
      intro px hpx hvalid
      have hpoint := hsame px hpx
      rw [if_pos hvalid, if_pos hvalid, Option.some.injEq] at hpoint
      have hplace := (toWorld_eq_iff minostate (px.fromRobot decodeKinectDist)).1
        ⟨congrArg Point3d.x hpoint, congrArg Point3d.y hpoint⟩
      exact (fromRobot_diagonal decodeKinectDist (hview px hpx)).1
        (hplace.resolve_left hahead)
  · intro hcond px hpx
    by_cases hvalid : px.IsValid
    · rw [if_pos hvalid, if_pos hvalid, toWorld_eq]
      rcases hcond with hahead | hnear
      · exact Or.inl hahead
      · right
        rw [fromRobot_diagonal decodeKinectDist (hview px hpx)]
        exact hnear px hpx hvalid
    · rw [if_neg hvalid, if_neg hvalid]

end MinotaurRobot.Map
