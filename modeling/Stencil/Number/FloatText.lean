import Stencil.Number.Shortest
import Stencil.Text.Letter

/-!
# Number — floats as text

Texts of floating-point numbers. A number is written with the fewest digits that read back as it:
positionally, with a fraction of at least one digit, while its first digit stands for a power of ten
from -4 to 15, else with an exponent of at least two digits.
-/

namespace Stencil.Number

open Stencil.Text (isDigit)

/-- The text of a positive decimal. -/
def Decimal.text (d : Decimal) : String :=
  let digits := Nat.toDigits 10 d.digits
  let count := digits.length
  let lead : Int := d.exponent + count - 1
  if -4 ≤ lead && lead < 16 then
    if 0 ≤ d.exponent then
      String.ofList (digits ++ List.replicate d.exponent.toNat '0') ++ ".0"
    else if 0 ≤ lead then
      String.ofList (digits.take (lead.toNat + 1) ++ '.' :: digits.drop (lead.toNat + 1))
    else
      "0." ++ String.ofList (List.replicate ((-lead).toNat - 1) '0' ++ digits)
  else
    let places := Nat.toDigits 10 lead.natAbs
    let places := if places.length < 2 then '0' :: places else places
    let fraction := if count = 1 then [] else '.' :: digits.drop 1
    String.ofList (digits.take 1 ++ fraction ++ 'e' :: (if lead < 0 then '-' else '+') :: places)

/-- The text of a number that is not a NaN. -/
def Binary64.text (x : Binary64) : String :=
  let sign := if x.isNegative then "-" else ""
  sign ++
    if !x.isFinite then "inf"
    else if x.isZero then "0.0"
    else (shortest x).text

/-- The digits at the beginning of a text. -/
def leadingDigits (cs : List Char) : List Char × List Char :=
  (cs.takeWhile isDigit, cs.dropWhile isDigit)

/-- The number that a row of digits stands for. -/
def digitsValue (cs : List Char) : Nat :=
  cs.foldl (fun n c => n * 10 + (c.toNat - '0'.toNat)) 0

/-- The value of an exponent part, which may be missing. -/
def readExponent? : List Char → Option Int
  | [] => some 0
  | c :: cs =>
    if c ≠ 'e' && c ≠ 'E' then none
    else
      let (negative, cs) := match cs with
        | '-' :: rest => (true, rest)
        | '+' :: rest => (false, rest)
        | rest => (false, rest)
      if cs.isEmpty || !cs.all isDigit then none
      else some (if negative then -digitsValue cs else digitsValue cs)

/-- Reads an unsigned decimal number with an optional fraction and exponent. -/
def readUnsigned? (negative : Bool) (cs : List Char) : Option Binary64 :=
  let (whole, rest) := leadingDigits cs
  let (fraction, rest) := match rest with
    | '.' :: rest => leadingDigits rest
    | rest => ([], rest)
  if whole.isEmpty && fraction.isEmpty then none
  else
    (readExponent? rest).map fun e =>
      Binary64.ofDecimal negative (digitsValue (whole ++ fraction)) (e - fraction.length)

/-- Reads a number, which may have a sign; `inf` is infinity. -/
def readFloat? (s : String) : Option Binary64 :=
  let (negative, cs) := match s.toList with
    | '-' :: rest => (true, rest)
    | '+' :: rest => (false, rest)
    | rest => (false, rest)
  if cs = ['i', 'n', 'f'] then some (Binary64.infinity negative) else readUnsigned? negative cs

end Stencil.Number
