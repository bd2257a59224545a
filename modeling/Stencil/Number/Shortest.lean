import Stencil.Number.Binary64

/-!
# Number — shortest digits

The shortest decimal that reads back as a given binary number. Of the decimals with the fewest digits
that round to the number it is the nearest one.
-/

namespace Stencil.Number

-- The powers here are those of the core library, whatever else is imported.
attribute [local instance (high)] instPowNat

/-- A decimal `digits * 10 ^ exponent`. -/
structure Decimal where
  digits : Nat
  exponent : Int

/-- Compares `a * 10 ^ i * 2 ^ j` and `b` as whole numbers after both are cleared of fractions. -/
def clearTo (a : Nat) (i j : Int) (b : Nat) : Nat × Nat :=
  let left := a * 10 ^ i.toNat * 2 ^ j.toNat
  let right := b * 10 ^ (-i).toNat * 2 ^ (-j).toNat
  (left, right)

/-- The interval of fractions that round to a number, in quarters of its last place. -/
structure Rounding where
  low : Nat
  high : Nat
  closed : Bool

/-- The fractions that round to a finite positive number, in quarters of the unit `2 ^ scale`. Below a
power of two the neighbour is half as far. -/
def rounding (x : Binary64) : Rounding :=
  let m := 4 * x.significand
  ⟨if x.fractionField = 0 && x.exponentField > 1 then m - 1 else m - 2, m + 2,
    x.significand % 2 == 0⟩

/-- Whether `d * 10 ^ e` rounds to the number. -/
def Rounding.admits (r : Rounding) (scale : Int) (d : Nat) (e : Int) : Bool :=
  let (value, low) := clearTo (4 * d) e (-scale) r.low
  let (_, high) := clearTo (4 * d) e (-scale) r.high
  if r.closed then low ≤ value && value ≤ high else low < value && value < high

/-- The power of ten of the first digit of a fraction, which is positive. -/
def leadingExponent (num den : Nat) : Int :=
  let guess : Int := (((num.log2 : Int) - den.log2 - 1) * 30103).fdiv 100000
  let reaches (e : Int) : Bool := den * 10 ^ e.toNat ≤ num * 10 ^ (-e).toNat
  if reaches (guess + 1) then guess + 1 else guess

/-- The two decimals around a fraction on the grid of a power of ten, and whether the upper one is
nearer; a tie goes to the even one. -/
def around (num den : Nat) (e : Int) : Nat × Bool :=
  let n := num * 10 ^ (-e).toNat
  let d := den * 10 ^ e.toNat
  let q := n / d
  let r := n % d
  (q, d < 2 * r || (2 * r == d && q % 2 == 1))

/-- Tries grids of more and more digits. -/
def shortestFrom (x : Binary64) (num den : Nat) (e : Int) : Nat → Decimal
  | 0 => ⟨(around num den e).1, e⟩
  | tries + 1 =>
    let (q, upper) := around num den e
    let r := rounding x
    let below := r.admits x.scale q e
    let above := r.admits x.scale (q + 1) e
    if below && (!above || !upper) then ⟨q, e⟩
    else if above then ⟨q + 1, e⟩
    else shortestFrom x num den (e - 1) tries

/-- Leaves out the zeros at the end. -/
def Decimal.trimmed : Nat → Decimal → Decimal
  | 0, d => d
  | n + 1, d => if d.digits % 10 = 0 && d.digits ≠ 0 then trimmed n ⟨d.digits / 10, d.exponent + 1⟩ else d

/-- The shortest decimal of a finite positive number. -/
def shortest (x : Binary64) : Decimal :=
  let (num, den) := Binary64.shifted x.significand 1 x.scale
  (shortestFrom x num den (leadingExponent num den) 17).trimmed 400

end Stencil.Number
