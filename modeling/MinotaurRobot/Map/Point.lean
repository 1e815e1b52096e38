import Mathlib.Data.List.FinRange
import Mathlib.Tactic.Common

/-!
# The points of the map

A `Point` counts the recent observations that found its place open.  The last
observations are the bits of a shift register of eight words, the newest one
in bit `0` of `history[0]`.  `getProb` is the count.  The `walls` of a point
are not used by the map.
-/

namespace MinotaurRobot.Map

/-- `Point`. -/
structure Point where
  opencount : UInt8
  history : Vector UInt32 8
  deriving DecidableEq, Repr

/-- The constructor of `Point`. -/
def Point.fresh : Point :=
  { opencount := 127
    history := Vector.replicate 8 0xAAAAAAAA }

/-- The probability, from `0` to `255`, that the place is traversable. -/
def Point.getProb (p : Point) : UInt8 := p.opencount

/-- One round of the loop in `shift`.  The bit that leaves a word enters the
next one. -/
def shiftWord (state : Vector UInt32 8 × Bool) (i : Fin 8) : Vector UInt32 8 × Bool :=
  let (history, newbit) := state
  let oldbit := decide (0x80000000 &&& history[i] ≠ 0)
  (history.set i ((history[i] <<< 1) + newbit.toUInt32), oldbit)

/-- `shift`. -/
def Point.shift (p : Point) (newbit : Bool) : Point :=
  let opencount := if newbit then p.opencount + 1 else p.opencount
  let history := ((List.finRange 8).foldl shiftWord (p.history, newbit)).1
  { opencount := if history[7] &&& 0x80000000 ≠ 0 then opencount - 1 else opencount
    history := history }

/-- `incOpen`. -/
def Point.incOpen (p : Point) : Point := p.shift true

/-- `incClosed`. -/
def Point.incClosed (p : Point) : Point := p.shift false

end MinotaurRobot.Map
