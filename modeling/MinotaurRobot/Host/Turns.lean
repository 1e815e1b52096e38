import Mathlib.Algebra.Order.Floor.Ring
import Mathlib.Analysis.SpecialFunctions.Trigonometric.Angle
import MinotaurRobot.Host.Displacement

/-!
# The turn of the robot

`recv` moves the pose along a straight line if both wheels went equally far,
and along a circle otherwise.  There is one branch for a circle to the right
and one for a circle to the left.  Each has its own centre, radius and sense of
rotation.

The functions of `math.h` are parameters here.  `ideal` takes them as the real
ones.  Both branches are then the same motion, whichever wheel went farther
(`turnRight_turns`, `turnLeft_turns`): the heading turns by the difference of
the wheels over the radius, and the centre of the circle stays where it is.
-/

namespace MinotaurRobot.Host

/-! ## `recv` -/

/-- `PI` and the functions of `math.h`. -/
structure MathH (F : Type) where
  pi : F
  sin : F → F
  cos : F → F
  fmod : F → F → F

/-- The position of a `MinotaurState`. -/
structure Pose (F : Type) where
  x : F
  y : F
  orient : F
  deriving DecidableEq, Repr

section Code

variable {F : Type} [Field F] [LinearOrder F]

/-- `TURN_RADIUS`. -/
def turnRadius : F := 16

/-- `TURN_CIRCUMFERENCE`. -/
def turnCircumference (m : MathH F) : F := 2 * turnRadius * m.pi

/-- The branch that turns along the right circle. -/
def turnRight (m : MathH F) (current : Pose F) (leftInches rightInches : F) : Pose F :=
  let pctCircum := (leftInches - rightInches) / turnCircumference m
  let ro := leftInches / (2 * m.pi * pctCircum)
  let ri := rightInches / (2 * m.pi * pctCircum)
  let r := (ro + ri) / 2
  let orient := m.fmod (current.orient - pctCircum * 2 * m.pi) (2 * m.pi)
  { x := current.x + r * m.sin (current.orient - m.pi / 2) + r * m.sin (orient + m.pi / 2)
    y := current.y + r * m.cos (current.orient - m.pi / 2) + r * m.cos (orient + m.pi / 2)
    orient := orient }

/-- The branch that turns along the left circle. -/
def turnLeft (m : MathH F) (current : Pose F) (leftInches rightInches : F) : Pose F :=
  let pctCircum := (rightInches - leftInches) / turnCircumference m
  let ro := rightInches / (2 * m.pi * pctCircum)
  let ri := leftInches / (2 * m.pi * pctCircum)
  let r := (ro + ri) / 2
  let orient := m.fmod (current.orient + pctCircum * 2 * m.pi) (2 * m.pi)
  { x := current.x + r * m.sin (current.orient + m.pi / 2) + r * m.sin (orient - m.pi / 2)
    y := current.y + r * m.cos (current.orient + m.pi / 2) + r * m.cos (orient - m.pi / 2)
    orient := orient }

/-- The position of `nextState` from that of `currentState`. -/
def moveInches (m : MathH F) (current : Pose F) (leftInches rightInches : F) : Pose F :=
  if leftInches = rightInches then
    { x := current.x + m.sin current.orient * leftInches
      y := current.y + m.cos current.orient * leftInches
      orient := current.orient }
  else if |leftInches| > |rightInches| then turnRight m current leftInches rightInches
  else turnLeft m current leftInches rightInches

/-- `left_inches`, with `LEFT_ENCODER_TO_INCHES`. -/
def leftInches (leftDiff : Int) : F := leftDiff / 15.5625

/-- `right_inches`, with `RIGHT_ENCODER_TO_INCHES`. -/
def rightInches (rightDiff : Int) : F := rightDiff / 15.40625

/-- The float computations of `recv` on exact numbers.  A quotient by the time
zero is infinite or not a number, and passes no comparison. -/
def inchOdometry (m : MathH F) : Odometry F where
  zero := 0
  sane := fun leftDiff rightDiff elapsed =>
    elapsed != 0 &&
      decide (|rightInches rightDiff / (elapsed.toNat : F)| < 1e-3) &&
      decide (|leftInches leftDiff| / (elapsed.toNat : F) < 1e-3)
  move := fun leftDiff rightDiff (x, y, orient) =>
    let next := moveInches m ⟨x, y, orient⟩ (leftInches leftDiff) (rightInches rightDiff)
    (next.x, next.y, next.orient)

end Code

/-! ## Real arithmetic -/

/-- The quotient of `fmod`, cut towards zero. -/
noncomputable def truncate (a : ℝ) : ℤ := if 0 ≤ a then ⌊a⌋ else ⌈a⌉

noncomputable def ideal : MathH ℝ where
  pi := Real.pi
  sin := Real.sin
  cos := Real.cos
  fmod := fun a b => a - b * truncate (a / b)

/-- The remainder is the same angle. -/
theorem ideal_fmod (a : ℝ) :
    ((ideal.fmod a (2 * ideal.pi) : ℝ) : Real.Angle) = (a : Real.Angle) := by
  rw [Real.Angle.angle_eq_iff_two_pi_dvd_sub]
  refine ⟨-truncate (a / (2 * Real.pi)), ?_⟩
  show a - 2 * Real.pi * truncate (a / (2 * Real.pi)) - a = _
  push_cast
  ring

/-- One motion along a circle: the heading turns by `d = (r - l) / TURN_RADIUS`,
and the position keeps its distance to the centre. -/
structure TurnsBy (current : Pose ℝ) (l r : ℝ) (next : Pose ℝ) : Prop where
  orient : (next.orient : Real.Angle) = ((current.orient + (r - l) / turnRadius : ℝ) : Real.Angle)
  x : next.x = current.x +
    (l + r) / 2 / ((r - l) / turnRadius) * (Real.cos current.orient - Real.cos next.orient)
  y : next.y = current.y +
    (l + r) / 2 / ((r - l) / turnRadius) * (Real.sin next.orient - Real.sin current.orient)

/-- The share of the circle, as an angle. -/
theorem share_angle (a : ℝ) : a / turnCircumference ideal * 2 * ideal.pi = a / turnRadius := by
  have hpi := Real.pi_ne_zero
  show a / (2 * 16 * Real.pi) * 2 * Real.pi = a / 16
  field_simp

/-- The mean of the two radii. -/
theorem mean_radius (a b c : ℝ) :
    (a / (2 * ideal.pi * (c / turnCircumference ideal)) +
      b / (2 * ideal.pi * (c / turnCircumference ideal))) / 2 = (a + b) / 2 / (c / turnRadius) := by
  have hangle : 2 * ideal.pi * (c / turnCircumference ideal) = c / turnRadius := by
    rw [← share_angle]
    ring
  rw [hangle]
  ring

/-- The right circle is the left circle with a negative radius. -/
theorem radius_swap (a l r : ℝ) :
    a / ((l - r) / turnRadius) = -(a / ((r - l) / turnRadius)) := by
  have hsign : (l - r) / turnRadius = -((r - l) / (turnRadius : ℝ)) := by ring
  rw [hsign, div_neg]

theorem turnRight_turns (current : Pose ℝ) (l r : ℝ) :
    TurnsBy current l r (turnRight ideal current l r) where
  orient := by
    show ((ideal.fmod (current.orient - _) _ : ℝ) : Real.Angle) = _
    rw [ideal_fmod, share_angle]
    congr 1
    ring
  x := by
    show current.x + _ * Real.sin (current.orient - Real.pi / 2) +
      _ * Real.sin ((turnRight ideal current l r).orient + Real.pi / 2) = _
    rw [Real.sin_sub_pi_div_two, Real.sin_add_pi_div_two, mean_radius, radius_swap]
    ring
  y := by
    show current.y + _ * Real.cos (current.orient - Real.pi / 2) +
      _ * Real.cos ((turnRight ideal current l r).orient + Real.pi / 2) = _
    rw [Real.cos_sub_pi_div_two, Real.cos_add_pi_div_two, mean_radius, radius_swap]
    ring

theorem turnLeft_turns (current : Pose ℝ) (l r : ℝ) :
    TurnsBy current l r (turnLeft ideal current l r) where
  orient := by
    show ((ideal.fmod (current.orient + _) _ : ℝ) : Real.Angle) = _
    rw [ideal_fmod, share_angle]
  x := by
    show current.x + _ * Real.sin (current.orient + Real.pi / 2) +
      _ * Real.sin ((turnLeft ideal current l r).orient - Real.pi / 2) = _
    rw [Real.sin_sub_pi_div_two, Real.sin_add_pi_div_two, mean_radius]
    ring
  y := by
    show current.y + _ * Real.cos (current.orient + Real.pi / 2) +
      _ * Real.cos ((turnLeft ideal current l r).orient - Real.pi / 2) = _
    rw [Real.cos_sub_pi_div_two, Real.cos_add_pi_div_two, mean_radius]
    ring

/-! ## Every pair of displacements -/

theorem moveInches_straight (m : MathH ℝ) (current : Pose ℝ) (l : ℝ) :
    moveInches m current l l =
      { x := current.x + m.sin current.orient * l
        y := current.y + m.cos current.orient * l
        orient := current.orient } := by
  unfold moveInches
  exact if_pos rfl

theorem moveInches_turns (current : Pose ℝ) {l r : ℝ} (h : l ≠ r) :
    TurnsBy current l r (moveInches ideal current l r) := by
  unfold moveInches
  rw [if_neg h]
  split_ifs
  · exact turnRight_turns current l r
  · exact turnLeft_turns current l r

/-- The position is the same and the heading is the same angle. -/
def SamePose (p q : Pose ℝ) : Prop :=
  p.x = q.x ∧ p.y = q.y ∧ (p.orient : Real.Angle) = (q.orient : Real.Angle)

theorem TurnsBy.back {a b c : Pose ℝ} {l r : ℝ} (hab : TurnsBy a l r b)
    (hbc : TurnsBy b (-l) (-r) c) : SamePose c a := by
  have hangle : (c.orient : Real.Angle) = (a.orient : Real.Angle) := by
    rw [hbc.orient, Real.Angle.coe_add, hab.orient, ← Real.Angle.coe_add]
    congr 1
    ring
  have hcos : Real.cos c.orient = Real.cos a.orient := by
    have hcoe := congrArg Real.Angle.cos hangle
    rwa [Real.Angle.cos_coe, Real.Angle.cos_coe] at hcoe
  have hsin : Real.sin c.orient = Real.sin a.orient := by
    have hcoe := congrArg Real.Angle.sin hangle
    rwa [Real.Angle.sin_coe, Real.Angle.sin_coe] at hcoe
  -- the way back is on the same circle
  have hradius : (-l + -r) / 2 / ((-r - -l) / turnRadius) =
      (l + r) / 2 / ((r - l) / (turnRadius : ℝ)) := by
    have hnum : (-l + -r) / 2 = -((l + r) / 2) := by ring
    have hden : (-r - -l) / turnRadius = -((r - l) / (turnRadius : ℝ)) := by ring
    rw [hnum, hden, neg_div_neg_eq]
  refine ⟨?_, ?_, hangle⟩
  · rw [hbc.x, hab.x, hradius, hcos]
    ring
  · rw [hbc.y, hab.y, hradius, hsin]
    ring

theorem moveInches_back (current : Pose ℝ) (l r : ℝ) :
    SamePose (moveInches ideal (moveInches ideal current l r) (-l) (-r)) current := by
  by_cases h : l = r
  · subst h
    rw [moveInches_straight, moveInches_straight]
    refine ⟨?_, ?_, rfl⟩
    · show current.x + ideal.sin current.orient * l + ideal.sin current.orient * -l = _
      ring
    · show current.y + ideal.cos current.orient * l + ideal.cos current.orient * -l = _
      ring
  · have hback : -l ≠ -r := fun hneg => h (neg_injective hneg)
    exact (moveInches_turns current h).back (moveInches_turns _ hback)

/-- The step does not depend on the branch, and it can be undone. -/
theorem odometry_step (current : Pose ℝ) (l r : ℝ) :
    (l ≠ r → TurnsBy current l r (turnRight ideal current l r) ∧
      TurnsBy current l r (turnLeft ideal current l r) ∧
      TurnsBy current l r (moveInches ideal current l r)) ∧
    SamePose (moveInches ideal (moveInches ideal current l r) (-l) (-r)) current := by
  refine ⟨?_, moveInches_back current l r⟩
  intro h
  exact ⟨turnRight_turns current l r, turnLeft_turns current l r, moveInches_turns current h⟩

theorem odometry_step_quarter :
    TurnsBy ⟨0, 0, 0⟩ 3 1 (turnLeft ideal ⟨0, 0, 0⟩ 3 1) :=
  ((odometry_step ⟨0, 0, 0⟩ 3 1).1 (by norm_num)).2.1

/-! ## Every run of `recv` -/

/-- With or without a turn. -/
theorem moveInches_orient (current : Pose ℝ) (l r : ℝ) :
    ((moveInches ideal current l r).orient : Real.Angle) =
      ((current.orient + (r - l) / turnRadius : ℝ) : Real.Angle) := by
  by_cases h : l = r
  · subst h
    rw [moveInches_straight, sub_self, zero_div, add_zero]
  · exact (moveInches_turns current h).orient

/-- What a commit turns the robot by. -/
noncomputable def Check.turn (k : Check ℝ) : ℝ :=
  (rightInches (k.diff .right) - leftInches (k.diff .left)) / turnRadius

theorem heading_foldl (commits : List (Check ℝ)) (pose : ℝ × ℝ × ℝ) :
    ((commits.foldl (fun pose k => (inchOdometry ideal).move (k.diff .left) (k.diff .right) pose)
        pose).2.2 : Real.Angle) =
      ((pose.2.2 + (commits.map Check.turn).sum : ℝ) : Real.Angle) := by
  induction commits generalizing pose with
  | nil => rw [List.map_nil, List.sum_nil, add_zero]; rfl
  | cons k commits ih =>
    rw [List.foldl_cons, ih, List.map_cons, List.sum_cons, ← add_assoc, Real.Angle.coe_add,
      Real.Angle.coe_add (pose.2.2 + k.turn)]
    congr 1
    exact moveInches_orient ⟨pose.1, pose.2.1, pose.2.2⟩ _ _

/-- Whatever the order of the turns and the branches they took, the heading of
the robot is the sum of the differences of its wheels. -/
theorem recv_heading (calls : List RecvCall) :
    ∃ log, logOf (inchOdometry ideal) calls = some log ∧
      (log.minotaur.currentState.orient : Real.Angle) =
        ((((commitsOf (inchOdometry ideal) calls).map Check.turn).sum : ℝ) : Real.Angle) := by
  obtain ⟨log, hrun, hpose⟩ := pose_eq_updates (inchOdometry ideal) calls
  refine ⟨log, hrun, ?_⟩
  have hheading := heading_foldl (commitsOf (inchOdometry ideal) calls)
    (MinotaurState.fresh (inchOdometry ideal)).pose
  rw [← hpose] at hheading
  have hzero : (MinotaurState.fresh (inchOdometry ideal)).pose.2.2 = 0 := rfl
  rw [hzero, zero_add] at hheading
  exact hheading

end MinotaurRobot.Host
