/-!
# Text — bytes

The written form of a sequence of bytes: a quoted text in which printable ASCII stands for itself
and every other byte is an escape.
-/

namespace Stencil.Text

/-- A digit in base sixteen. -/
def hexDigit (n : Nat) : Char :=
  if n < 10 then Char.ofNat ('0'.toNat + n) else Char.ofNat ('a'.toNat + (n - 10))

/-- One byte between the given quotes. -/
def escapeByte (quote : Char) (b : UInt8) : List Char :=
  let n := b.toNat
  if n == 0x09 then ['\\', 't']
  else if n == 0x0A then ['\\', 'n']
  else if n == 0x0D then ['\\', 'r']
  else if n == 0x5C || n == quote.toNat then ['\\', Char.ofNat n]
  else if 0x20 ≤ n && n < 0x7F then [Char.ofNat n]
  else ['\\', 'x', hexDigit (n / 16), hexDigit (n % 16)]

/-- The written form of bytes. Double quotes are used when the bytes hold a single quote and no
double one. -/
def byteText (bs : List UInt8) : String :=
  let quote := if bs.contains 0x27 && !bs.contains 0x22 then '"' else '\''
  String.ofList ('b' :: quote :: bs.flatMap (escapeByte quote) ++ [quote])

end Stencil.Text
