import NeuralEngine.Basic
import NeuralEngine.Binary32

/-!
# Fixed-point elements

An element with `p` fractional bits stands for its signed number divided by `2 ^ p`. At most 31
bits can be fractional, so larger binary points count as 31. Conversion to an element multiplies a
binary32 number by the scale `2 ^ p`, drops what is left of the fraction and clamps to the range of
an element; conversion from an element divides by the scale. Both are binary32 operations, so an
element is rounded to twenty-four significant bits before it is divided.
-/

namespace NeuralEngine.FixedPoint

/-- The most fractional bits that an element can carry beside its sign bit. -/
def maxBinaryPoint : Nat := 31

/-- The number of fractional bits that a requested binary point amounts to. -/
def binaryPoint (point : Nat) : Nat :=
  min point maxBinaryPoint

/-- The binary point that a network encodes as a distance from the offset of the engine. -/
def decimalPoint (offset encoded : Nat) : Nat :=
  binaryPoint (offset + encoded)

/-- The largest number of an element. -/
def maxElement : Int := 2 ^ 31 - 1

/-- The smallest number of an element. -/
def minElement : Int := -2 ^ 31

/-- The number in the range of an element that is nearest to `n`. -/
def clamp (n : Int) : Int :=
  max minElement (min n maxElement)

/-- The number `n` with the given sign. -/
def signed (negative : Bool) (n : Nat) : Int :=
  if negative then -n else n

/-- The integer part of a binary32 number, clamped to the range of an element. A NaN becomes zero. -/
def truncated (value : BitVec 32) : Element :=
  match Binary32.decode value with
  | .finite negative units => BitVec.ofInt 32 (clamp (signed negative (units / Binary32.one)))
  | .infinite negative => BitVec.ofInt 32 (if negative then minElement else maxElement)
  | .nan => 0

/-- The binary32 number `2 ^ p`. -/
def scale (point : Nat) : BitVec 32 :=
  Binary32.ofInt ((2 ^ binaryPoint point : Nat) : Int)

/-- The element of a binary32 number. -/
def toFixed (value : BitVec 32) (point : Nat) : Element :=
  truncated (Binary32.mul value (scale point))

/-- The binary32 number of an element. -/
def fromFixed (element : Element) (point : Nat) : BitVec 32 :=
  Binary32.div (Binary32.ofInt element.toInt) (scale point)

end NeuralEngine.FixedPoint
