/-!
# Magnitudes of binary64 numbers

The magnitude of a double is its bit pattern with the sign bit cleared, read as a natural number.
Magnitudes are ordered like the values they stand for, and neighbouring values have neighbouring
magnitudes, so rounding to the nearest double is a choice between two consecutive numbers. Values
are measured in units of `2⁻¹⁰⁷⁴`, the least positive double, which makes every one of them a
natural number.
-/

namespace Keypad.Binary64

-- Powers are those of natural numbers, also where monoids have theirs.
attribute [local instance (high)] instPowNat

/-- The magnitude of the infinities. Finite magnitudes are those below it. -/
def infinity : Nat := 0x7FF0000000000000

/-- How many units make one. -/
def unitsPerOne : Nat := 2 ^ (1074 : Nat)

/-- The value of a magnitude in units. Infinity counts as `2¹⁰²⁴`, the value that the next finite
    magnitude would have. -/
def units (magnitude : Nat) : Nat :=
  let exponent := magnitude / 2 ^ (52 : Nat)
  let fraction := magnitude % 2 ^ (52 : Nat)
  if exponent = 0 then fraction else (2 ^ (52 : Nat) + fraction) * 2 ^ (exponent - 1)

/-- The greatest magnitude whose value is at most `count` units, where the exponent is taken to be
    unbounded. -/
def floor (count : Nat) : Nat :=
  let shift := count.log2 - 52
  shift * 2 ^ (52 : Nat) + count / 2 ^ shift

/-- The magnitude nearest to `numerator / denominator` units. A value halfway between two
    magnitudes goes to the even one, and whatever rounds beyond the finite magnitudes goes to
    infinity. -/
def nearest (numerator denominator : Nat) : Nat :=
  let below := floor (numerator / denominator)
  let middle := denominator * (units below + units (below + 1))
  let rounded :=
    if 2 * numerator < middle then below
    else if middle < 2 * numerator then below + 1
    else below + below % 2
  min rounded infinity

/-- The nonnegative double of a magnitude. -/
def toFloat (magnitude : Nat) : Float :=
  Float.ofBits (UInt64.ofNat magnitude)

/-- The magnitude of a double. -/
def ofFloat (number : Float) : Nat :=
  number.toBits.toNat % 2 ^ (63 : Nat)

/-- Whether the sign bit of a double is set. -/
def signBit (number : Float) : Bool :=
  2 ^ (63 : Nat) ≤ number.toBits.toNat

end Keypad.Binary64
