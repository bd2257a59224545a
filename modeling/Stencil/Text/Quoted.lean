import Stencil.Text.ByteText
import Stencil.Text.CharacterTable
import Stencil.Text.HiddenTable

/-!
# Text — quotation

The quoted form of a text, in which characters that do not print are escapes.
-/

namespace Stencil.Text

/-- A number in base sixteen with a fixed number of digits. -/
def hexDigits : Nat → Nat → List Char
  | 0, _ => []
  | places + 1, n => hexDigits places (n / 16) ++ [hexDigit (n % 16)]

/-- Whether a character does not print. -/
def isHidden (c : Char) : Bool :=
  inRanges hiddenRanges c

/-- One character between the given quotes. -/
def escapeChar (quote c : Char) : List Char :=
  if c = quote || c = '\\' then ['\\', c]
  else if c = '\t' then ['\\', 't']
  else if c = '\n' then ['\\', 'n']
  else if c = '\r' then ['\\', 'r']
  else if isHidden c then
    if c.toNat < 0x100 then '\\' :: 'x' :: hexDigits 2 c.toNat
    else if c.toNat < 0x10000 then '\\' :: 'u' :: hexDigits 4 c.toNat
    else '\\' :: 'U' :: hexDigits 8 c.toNat
  else [c]

/-- A text in quotes. Double quotes are used when the text holds a single quote and no double one. -/
def quoted (s : String) : String :=
  let cs := s.toList
  let quote := if cs.contains '\'' && !cs.contains '"' then '"' else '\''
  String.ofList (quote :: cs.flatMap (escapeChar quote) ++ [quote])

end Stencil.Text
