import NeuralEngine.Basic

/-!
# Binary32 arithmetic

A 32-bit floating-point pattern is a sign, an exponent field of eight bits and a fraction of
twenty-three. A finite one denotes a multiple of the least positive number, `2 ^ -149`, and
`decode` says which. `nearest` goes back from an exact quotient to a pattern: to the nearest number
of twenty-four significant bits, the even one of two that are equally near, and to an infinity
where that number is too large. An operation is the exact result on what the patterns denote,
rounded in that way once.
-/

namespace NeuralEngine.Binary32

/-- What a pattern denotes. -/
inductive Value where
  /-- `units * 2 ^ -149`, negated if `negative`. -/
  | finite (negative : Bool) (units : Nat)
  | infinite (negative : Bool)
  | nan
deriving DecidableEq, Repr

/-- The number one in units of `2 ^ -149`. -/
def one : Nat := 2 ^ 149

/-- The value of a pattern. A zero exponent field marks zeros and subnormal numbers, whose
significand has no leading one; a field of ones marks infinities and NaNs. -/
def decode (bits : BitVec 32) : Value :=
  let negative := bits.msb
  let field := (bits.extractLsb' 23 8).toNat
  let fraction := (bits.extractLsb' 0 23).toNat
  if field = 255 then
    if fraction = 0 then .infinite negative else .nan
  else if field = 0 then .finite negative fraction
  else .finite negative ((2 ^ 23 + fraction) * 2 ^ (field - 1))

/-- The pattern of a sign and the exponent field and fraction behind it. -/
def pack (negative : Bool) (magnitude : Nat) : BitVec 32 :=
  BitVec.ofBool negative ++ BitVec.ofNat 31 magnitude

/-- An exponent field of ones and no fraction. -/
def infinity : Nat := 255 * 2 ^ 23

/-- The NaN that an operation without a result yields. -/
def nan : BitVec 32 :=
  pack false (infinity + 2 ^ 22)

/-- The integer nearest to `num / den`, an even one where two are equally near. -/
def roundDiv (num den : Nat) : Nat :=
  let q := num / den
  let r := num % den
  if 2 * r < den ∨ (2 * r = den ∧ q % 2 = 0) then q else q + 1

/-- The bits of the integer part of `num / den` behind its first twenty-four. -/
def excess (num den : Nat) : Nat :=
  (num / den).log2 - 23

/-- The pattern nearest to `num / den` units. A significand that rounding carries to twenty-five
bits carries into the exponent field. -/
def nearest (negative : Bool) (num den : Nat) : BitVec 32 :=
  let shift := excess num den
  pack negative (min (shift * 2 ^ 23 + roundDiv num (den * 2 ^ shift)) infinity)

/-- The pattern nearest to an integer. -/
def ofInt (n : Int) : BitVec 32 :=
  nearest (decide (n < 0)) (n.natAbs * one) 1

/-- The product of what two patterns denote. -/
def mul (x y : BitVec 32) : BitVec 32 :=
  match decode x, decode y with
  | .nan, _ => nan
  | _, .nan => nan
  | .finite s m, .finite t n => nearest (s != t) (m * n) one
  | .finite s m, .infinite t => if m = 0 then nan else pack (s != t) infinity
  | .infinite s, .finite t n => if n = 0 then nan else pack (s != t) infinity
  | .infinite s, .infinite t => pack (s != t) infinity

/-- The quotient of what two patterns denote. -/
def div (x y : BitVec 32) : BitVec 32 :=
  match decode x, decode y with
  | .nan, _ => nan
  | _, .nan => nan
  | .finite s m, .finite t n =>
    if n = 0 then if m = 0 then nan else pack (s != t) infinity
    else nearest (s != t) (m * one) n
  | .finite s _, .infinite t => pack (s != t) 0
  | .infinite s, .finite t _ => pack (s != t) infinity
  | .infinite _, .infinite _ => nan

end NeuralEngine.Binary32
