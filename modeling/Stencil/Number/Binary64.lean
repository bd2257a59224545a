/-!
# Number — floats

Binary floating-point numbers of 64 bits, as their bits. A finite number is a significand times a
power of two; `ofRatio` rounds a fraction to the nearest of them, a tie going to the even significand.
-/

namespace Stencil.Number

-- The powers here are those of the core library, whatever else is imported.
attribute [local instance (high)] instPowNat

/-- A number of the 64-bit binary format, by its bits. -/
structure Binary64 where
  bits : UInt64
  deriving DecidableEq, Repr, Inhabited

namespace Binary64

/-- The sign bit. -/
def isNegative (x : Binary64) : Bool :=
  x.bits.toNat ≥ 2 ^ (63 : Nat)

/-- The exponent field. -/
def exponentField (x : Binary64) : Nat :=
  x.bits.toNat / 2 ^ (52 : Nat) % 2 ^ (11 : Nat)

/-- The fraction field. -/
def fractionField (x : Binary64) : Nat :=
  x.bits.toNat % 2 ^ (52 : Nat)

def isFinite (x : Binary64) : Bool :=
  x.exponentField < 2047

def isZero (x : Binary64) : Bool :=
  x.exponentField == 0 && x.fractionField == 0

/-- The significand of a finite number, as a whole number. -/
def significand (x : Binary64) : Nat :=
  if x.exponentField = 0 then x.fractionField else 2 ^ (52 : Nat) + x.fractionField

/-- The power of two that the significand of a finite number is multiplied by. -/
def scale (x : Binary64) : Int :=
  (max x.exponentField 1 : Nat) - 1075

/-- The number with these fields. -/
def ofFields (negative : Bool) (magnitude : Nat) : Binary64 :=
  ⟨UInt64.ofNat ((if negative then 2 ^ (63 : Nat) else 0) + magnitude)⟩

def infinity (negative : Bool) : Binary64 :=
  ofFields negative (2047 * 2 ^ (52 : Nat))

/-- A fraction `num * 2 ^ k / den`. -/
def shifted (num den : Nat) (k : Int) : Nat × Nat :=
  if 0 ≤ k then (num * 2 ^ k.toNat, den) else (num, den * 2 ^ (-k).toNat)

/-- The whole number nearest to a fraction; of two equally near ones the even one. -/
def nearest (num den : Nat) : Nat :=
  let q := num / den
  let r := num % den
  if 2 * r < den || (2 * r == den && q % 2 == 0) then q else q + 1

/-- The exponent that leaves a significand of 53 bits, or the least exponent there is. -/
def scaleFor (num den : Nat) : Int :=
  let guess : Int := (num.log2 : Int) - den.log2 - 52
  let (n, d) := shifted num den (-guess)
  max (-1074) (if n / d < 2 ^ (52 : Nat) then guess - 1 else guess)

/-- The number nearest to a positive fraction; infinity when the fraction is too large. -/
def ofRatio (negative : Bool) (num den : Nat) : Binary64 :=
  if num = 0 then ofFields negative 0
  else
    let k := scaleFor num den
    let (n, d) := shifted num den (-k)
    let magnitude := nearest n d + (k + 1074).toNat * 2 ^ (52 : Nat)
    if magnitude ≥ 2047 * 2 ^ (52 : Nat) then infinity negative else ofFields negative magnitude

/-- The number nearest to `digits * 10 ^ exponent`. -/
def ofDecimal (negative : Bool) (digits : Nat) (exponent : Int) : Binary64 :=
  let size : Int := (Nat.toDigits 10 digits).length + exponent
  if digits = 0 || size < -400 then ofFields negative 0
  else if size > 400 then infinity negative
  else if 0 ≤ exponent then ofRatio negative (digits * 10 ^ exponent.toNat) 1
  else ofRatio negative digits (10 ^ (-exponent).toNat)

/-- The value of a finite number, as a whole number and the power of two that it is multiplied by. -/
def parts (x : Binary64) : Int × Int :=
  (if x.isNegative then -x.significand else x.significand, x.scale)

/-- The number nearest to a whole number times a power of two. -/
def ofParts (m k : Int) : Binary64 :=
  let (num, den) := shifted m.natAbs 1 k
  ofRatio (m < 0) num den

/-- The sum of two finite numbers. -/
def add (x y : Binary64) : Binary64 :=
  let (m, j) := x.parts
  let (n, k) := y.parts
  let least := min j k
  ofParts (m * 2 ^ (j - least).toNat + n * 2 ^ (k - least).toNat) least

/-- A finite number multiplied by a whole number. -/
def times (x : Binary64) (n : Nat) : Binary64 :=
  ofParts (x.parts.1 * n) x.parts.2

/-- The number with the other sign. -/
def negate (x : Binary64) : Binary64 :=
  ⟨x.bits ^^^ UInt64.ofNat (2 ^ (63 : Nat))⟩

/-- Equality of numbers: both zeros are one number. -/
def same (x y : Binary64) : Bool :=
  x.bits == y.bits || (x.isZero && y.isZero)

/-- Whether the number is a given whole number. -/
def isInt (x : Binary64) (n : Int) : Bool :=
  let m : Int := if x.isNegative then -x.significand else x.significand
  x.isFinite &&
    if 0 ≤ x.scale then m * 2 ^ x.scale.toNat == n else m == n * 2 ^ (-x.scale).toNat

end Binary64

end Stencil.Number
