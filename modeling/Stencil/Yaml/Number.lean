import Stencil.Number.FloatText
import Stencil.Text.Case
import Stencil.Text.Pieces
import Stencil.Yaml.Basic

/-!
# YAML — numbers

Numbers in plain scalars: the forms that make a scalar a number, and the number that a scalar stands for
when it is taken as one. Underscores may stand among the digits. The version 1.1 has numbers in base
sixty besides, with a colon between the digits, and writes base eight with a zero.
-/

namespace Stencil

open Stencil.Number (Binary64)
open Stencil.Text (isDigit)

namespace Yaml

/-- The sign and the rest of a number. -/
def splitSign : List Char → Bool × List Char
  | '-' :: cs => (true, cs)
  | '+' :: cs => (false, cs)
  | cs => (false, cs)

/-- A digit in a base up to sixteen. -/
def digit? (base : Nat) (c : Char) : Option Nat :=
  let n :=
    if isDigit c then c.toNat - '0'.toNat
    else if 'a' ≤ c && c ≤ 'f' then c.toNat - 'a'.toNat + 10
    else if 'A' ≤ c && c ≤ 'F' then c.toNat - 'A'.toNat + 10
    else 16
  if n < base then some n else none

/-- A row of digits in a base. -/
def number? (base : Nat) (cs : List Char) : Option Nat :=
  if cs.isEmpty then none
  else cs.foldlM (fun n c => (digit? base c).map fun d => n * base + d) 0

/-- Whether a text is a row of digits in a base and of underscores, and not empty. -/
def areDigits (base : Nat) (cs : List Char) : Bool :=
  !cs.isEmpty && cs.all fun c => c = '_' || (digit? base c).isSome

/-- The parts of a text between colons. -/
def colonParts (cs : List Char) : List (List Char) :=
  Text.splitAtPart [':'] 0 none [] cs

/-- Whether a text is a digit in base sixty. -/
def isSixtieth : List Char → Bool
  | [d] => isDigit d
  | [t, d] => '0' ≤ t && t ≤ '5' && isDigit d
  | _ => false

/-- Whether a text has the form of an integer in base sixty, with two digits at least. -/
def isSixtyForm (first : Char → Bool) (cs : List Char) : Bool :=
  match colonParts cs with
  | (c :: whole) :: part :: parts =>
    first c && whole.all (fun c => c = '_' || isDigit c) && (part :: parts).all isSixtieth
  | _ => false

/-- Whether a text has the form of an integer. -/
def isInteger (old : Bool) (cs : List Char) : Bool :=
  let isNonzero (c : Char) : Bool := isDigit c && c ≠ '0'
  match cs with
  | '_' :: _ => false
  | _ =>
    match (splitSign cs).2 with
    | '0' :: 'b' :: ds => areDigits 2 ds
    | '0' :: 'x' :: ds => areDigits 16 ds
    | '0' :: 'o' :: ds => !old && areDigits 8 ds
    | ds =>
      if old then
        areDigits 8 ds || (ds.head?.any isNonzero && areDigits 10 ds) || isSixtyForm isNonzero ds
      else areDigits 10 ds

/-- Whether a text is an exponent; it may have to have a sign. -/
def isExponent (signed : Bool) : List Char → Bool
  | [] => false
  | e :: cs =>
    (e = 'e' || e = 'E') &&
      match cs with
      | '+' :: ds | '-' :: ds => !ds.isEmpty && ds.all isDigit
      | ds => !signed && !ds.isEmpty && ds.all isDigit

/-- Whether a text has the form of a number with a fraction or an exponent. The exponent after a fraction
that nothing stands before has to have a sign. -/
def isFraction (old : Bool) (cs : List Char) : Bool :=
  let isPart (c : Char) : Bool := isDigit c || c = '_'
  let unsigned := (splitSign cs).2
  let word := String.ofList unsigned
  if [".inf", ".Inf", ".INF"].contains word then true
  else if [".nan", ".NaN", ".NAN"].contains (String.ofList cs) then true
  else
    match unsigned with
    | '.' :: ds =>
      let rest := ds.dropWhile isPart
      ds.head?.any isPart && (rest.isEmpty || isExponent true rest) &&
        !(old && unsigned.length < cs.length)
    | d :: ds =>
      isDigit d &&
        match ds.dropWhile isPart with
        | '.' :: ds => (ds.dropWhile isPart).isEmpty || isExponent false (ds.dropWhile isPart)
        | ':' :: rest =>
          old && rest.contains '.' && isSixtyForm isDigit (unsigned.takeWhile (· ≠ '.')) &&
            ((rest.dropWhile (· ≠ '.')).drop 1).all isPart
        | ds => isExponent false ds
    | [] => false

/-- A number without its mark of a base. -/
def dropBase (base : Nat) : List Char → List Char
  | '0' :: c :: cs =>
    if (base = 2 && (c = 'b' || c = 'B')) || (base = 8 && (c = 'o' || c = 'O')) ||
        (base = 16 && (c = 'x' || c = 'X')) then cs
    else '0' :: c :: cs
  | cs => cs

/-- An integer in a base, which may have white space around it, a sign and a mark of its base. -/
def integerIn (base : Nat) (cs : List Char) : YamlResult Int :=
  let (negative, unsigned) := splitSign (Text.trimBoth Text.isSpace cs)
  let digits := dropBase base unsigned
  match number? base digits with
  | none => .error (.notInteger base (String.ofList cs))
  | some n =>
    if base = 10 && Number.longestInteger < digits.length then .error (.longInteger digits.length)
    else .ok (if negative then -(n : Int) else n)

/-- An integer in base sixty. -/
def sixties (cs : List Char) : YamlResult Int := do
  let parts ← (colonParts cs).mapM (integerIn 10)
  return parts.foldl (fun n d => n * 60 + d) 0

/-- The integer that a scalar stands for. -/
def integer (old : Bool) (text : String) : YamlResult Int := do
  let digits := text.toList.filter (· ≠ '_')
  if digits.isEmpty then throw .noDigits
  let (negative, cs) := splitSign digits
  let n ← match cs with
    | '0' :: 'b' :: ds => integerIn 2 ds
    | '0' :: 'x' :: ds => integerIn 16 ds
    | '0' :: 'o' :: ds => integerIn 8 ds
    | _ =>
      if old && cs.isEmpty then throw .noDigits
      else if cs = ['0'] then pure 0
      else if old && cs.head? = some '0' then integerIn 8 cs
      else if old && cs.contains ':' then sixties cs
      else integerIn 10 cs
  return if negative then -n else n

/-- The number that a text in lower case stands for, which may have white space around it and a sign. -/
def floatOf (negative : Bool) (cs : List Char) : YamlResult Yaml :=
  let (opposite, unsigned) := splitSign (Text.trimBoth Text.isSpace cs)
  let word := String.ofList unsigned
  let negative := negative != opposite
  if word = "inf" || word = "infinity" then .ok (.float (Binary64.infinity negative))
  else if word = "nan" then .ok .nan
  else
    match Number.readUnsigned? negative unsigned with
    | some x => .ok (.float x)
    | none => .error (.notFloat (String.ofList cs))

/-- A number whose digits in base sixty are numbers themselves, given the last digit first and what the
first of them is multiplied by. A sum with a digit that is not a number is none. -/
def sixtiesSum (base : Nat) (sum : Binary64) : List Yaml → Yaml
  | [] => .float sum
  | .float x :: ds => sixtiesSum (base * 60) (sum.add (x.times base)) ds
  | _ :: _ => .nan

/-- A number in base sixty, of which the last digit may have a fraction. -/
def sixtiesFraction (negative : Bool) (cs : List Char) : YamlResult Yaml := do
  let digits ← (colonParts cs).mapM (floatOf false)
  match sixtiesSum 1 (Binary64.ofParts 0 0) digits.reverse with
  | .float x => return .float (if negative then x.negate else x)
  | v => return v

/-- The number with a fraction or an exponent that a scalar stands for. -/
def fraction (old : Bool) (text : String) : YamlResult Yaml := do
  let digits := (Text.lower (String.ofList (text.toList.filter (· ≠ '_')))).toList
  if digits.isEmpty then throw .noDigits
  let (negative, cs) := splitSign digits
  let word := String.ofList cs
  if word = ".inf" then return .float (Binary64.infinity negative)
  else if word = ".nan" then return .nan
  else if old && cs.contains ':' then sixtiesFraction negative cs
  else floatOf negative cs

end Yaml

end Stencil
