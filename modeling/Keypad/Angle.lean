/-!
# Angles

Degrees and radians are types of their own, so that an angle is converted before its sine is taken.
-/

namespace Keypad

/-- The double nearest to π. -/
def pi : Float := Float.ofBits 0x400921FB54442D18

structure Degrees where
  value : Float

structure Radians where
  value : Float

/-- Multiplies by π first and divides by 180 then, which decides the rounding. -/
def Degrees.toRadians (angle : Degrees) : Radians :=
  ⟨angle.value * pi / 180⟩

def Radians.sin (angle : Radians) : Float := angle.value.sin

def Radians.cos (angle : Radians) : Float := angle.value.cos

def Radians.tan (angle : Radians) : Float := angle.value.tan

end Keypad
