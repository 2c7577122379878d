import Keypad.Decimal

/-!
# Shortest decimals

The shortest decimal of a double is the one with the fewest digits among those that read back to it.
Decimals are grouped into grids: the steps of the finest grid, grid `0`, are units of the last of
`finestPlaces` places, and every further grid has steps ten times as long, hence fewer digits. Only
the two neighbours of the value on a grid have to be tried, because the decimals that read back to
one double form an interval. The steps of grid `0` are shorter than half the least distance of two
doubles, so every value has a decimal there.
-/

namespace Keypad.Decimal

-- Powers are those of natural numbers, also where monoids have theirs.
attribute [local instance (high)] instPowNat

/-- The places that suffice for every double. -/
def finestPlaces : Nat := 324

/-- The decimal that is `multiple` steps of a grid. -/
def onGrid (grid multiple : Nat) : Decimal :=
  ⟨multiple * 10 ^ (grid - finestPlaces), finestPlaces - grid⟩

/-- The value of a magnitude, as a numerator over `Binary64.unitsPerOne` steps of grid `0`. -/
def finestSteps (magnitude : Nat) : Nat :=
  Binary64.units magnitude * 10 ^ finestPlaces

/-- Of the two neighbours of a magnitude on a grid, the one that reads back to it. If both do, the
    nearer one is taken, and the upper one if both are equally near. -/
def neighbour? (magnitude grid : Nat) : Option Decimal :=
  let step := Binary64.unitsPerOne * 10 ^ grid
  let multiple := finestSteps magnitude / step
  let remainder := finestSteps magnitude % step
  let lower := onGrid grid multiple
  let upper := onGrid grid (multiple + 1)
  if lower.magnitude = magnitude then
    if upper.magnitude = magnitude ∧ step ≤ 2 * remainder then some upper else some lower
  else if upper.magnitude = magnitude then some upper
  else none

/-- The multiple of the finest step nearest to a magnitude, the upper one of two. -/
def finest (magnitude : Nat) : Decimal :=
  onGrid 0 ((2 * finestSteps magnitude + Binary64.unitsPerOne) / (2 * Binary64.unitsPerOne))

/-- The grids to try, from the coarsest one. Its step exceeds the value. -/
def grids (magnitude : Nat) : List Nat :=
  let digits := Nat.toDigits 10 (finestSteps magnitude / Binary64.unitsPerOne)
  (List.range' 1 digits.length).reverse

/-- The shortest decimal of a finite magnitude. -/
def shortest (magnitude : Nat) : Decimal :=
  if magnitude = 0 then ⟨0, 0⟩
  else ((grids magnitude).findSome? (neighbour? magnitude)).getD (finest magnitude)

/-- A decimal found on a grid reads back. -/
theorem magnitude_of_neighbour? {magnitude grid : Nat} {decimal : Decimal}
    (found : neighbour? magnitude grid = some decimal) : decimal.magnitude = magnitude := by
  simp only [neighbour?] at found
  split at found
  · split at found <;> simp_all
  · split at found <;> simp_all

end Keypad.Decimal
