import Stencil.Text.Newline
import Stencil.Text.Quoted

/-!
# Files — encodings

Reading bytes as text in one of three encodings. A byte sequence that is none of the encoding is refused
with its position and the reason.
-/

namespace Stencil

open Stencil.Text

/-- The encodings of template files. -/
inductive Encoding where
  | utf8
  | latin1
  | ascii
  deriving DecidableEq, Repr, Inhabited

/-- Why bytes are not text in an encoding. -/
inductive DecodeReason where
  | start
  | continuation
  | cutOff
  | notAscii
  deriving DecidableEq, Repr, Inhabited

/-- The reason in words. -/
def DecodeReason.text : DecodeReason → String
  | start => "invalid start byte"
  | continuation => "invalid continuation byte"
  | cutOff => "unexpected end of data"
  | notAscii => "ordinal not in range(128)"

/-- Bytes that are not text: the first of them, its position, and how many are affected. -/
structure DecodeError where
  codec : String
  byte : UInt8
  position : Nat
  count : Nat
  reason : DecodeReason
  deriving DecidableEq, Repr, Inhabited

/-- The message of a decoding error. -/
def DecodeError.message (e : DecodeError) : String :=
  let place :=
    if e.count = 1 then
      let digits := String.ofList (hexDigits 2 e.byte.toNat)
      s!"byte 0x{digits} in position {e.position}"
    else
      let final := e.position + e.count - 1
      s!"bytes in position {e.position}-{final}"
  s!"'{e.codec}' codec can't decode {place}: {e.reason.text}"

namespace Encoding

-- The powers here are those of the core library, whatever else is imported.
attribute [local instance (high)] instPowNat

/-- The name of an encoding, in lower case and with underscores. -/
def name : Encoding → String
  | utf8 => "utf_8"
  | latin1 => "latin_1"
  | ascii => "ascii"

/-- Further names of an encoding, in lower case and with underscores. -/
def aliases : Encoding → List String
  | utf8 => ["utf8", "u8", "utf", "cp65001", "utf8_ucs2", "utf8_ucs4"]
  | latin1 =>
    ["latin1", "latin", "l1", "iso_8859_1", "iso8859_1", "iso8859", "8859", "cp819", "ibm819",
      "csisolatin1", "iso_ir_100", "iso_8859_1_1987"]
  | ascii =>
    ["us_ascii", "us", "646", "iso646_us", "iso_ir_6", "ibm367", "cp367", "csascii",
      "ansi_x3_4_1968", "ansi_x3.4_1968", "ansi_x3.4_1986", "iso_646.irv_1991"]

/-- A name in lower case, each run of other characters than letters, digits and dots being one
underscore. -/
def normalName (pending : Bool) (started : Bool) : List Char → List Char
  | [] => []
  | c :: cs =>
    if c.isAlphanum || c = '.' then
      (if pending && started then ['_'] else []) ++ c.toLower :: normalName false true cs
    else normalName true started cs

/-- The encoding of a name. In a further name, dots may stand for underscores. -/
def ofName? (name : String) : Option Encoding :=
  let normal := normalName false false name.toList
  let undotted := String.ofList (normal.map fun c => if c = '.' then '_' else c)
  let normal := String.ofList normal
  [utf8, latin1, ascii].find? fun e =>
    e.name = normal || e.aliases.contains normal || e.aliases.contains undotted

/-- The lowest and highest second byte after a first byte of a character of several bytes. -/
def secondBounds (b : UInt8) : UInt8 × UInt8 :=
  if b = 0xE0 then (0xA0, 0xBF)
  else if b = 0xED then (0x80, 0x9F)
  else if b = 0xF0 then (0x90, 0xBF)
  else if b = 0xF4 then (0x80, 0x8F)
  else (0x80, 0xBF)

/-- How many bytes a character takes, by its first byte; none if no character begins so. -/
def byteCount? (b : UInt8) : Option Nat :=
  if b < 0x80 then some 1
  else if b < 0xC2 then none
  else if b < 0xE0 then some 2
  else if b < 0xF0 then some 3
  else if b < 0xF5 then some 4
  else none

/-- Reads the continuation bytes of a character; `taken` of its bytes are read, `code` is its value so
far. The bounds hold for the next byte only. -/
def decodeRest (taken missing code : Nat) (bounds : UInt8 × UInt8) :
    List UInt8 → Except (Nat × DecodeReason) (Nat × List UInt8)
  | bs =>
    match missing with
    | 0 => .ok (code, bs)
    | missing + 1 =>
      match bs with
      | [] => .error (taken, .cutOff)
      | b :: bs =>
        if bounds.1 ≤ b && b ≤ bounds.2 then
          decodeRest (taken + 1) missing (code * 64 + (b.toNat - 0x80)) (0x80, 0xBF) bs
        else .error (taken, .continuation)

/-- Reads bytes as UTF-8. The fuel is the number of bytes. -/
def decodeUtf8 : Nat → Nat → List Char → List UInt8 → Except DecodeError (List Char)
  | _, _, done, [] => .ok done.reverse
  | 0, _, done, _ => .ok done.reverse
  | fuel + 1, position, done, b :: bs =>
    let refuse (count : Nat) (reason : DecodeReason) : DecodeError :=
      ⟨"utf-8", b, position, count, reason⟩
    match byteCount? b with
    | none => .error (refuse 1 .start)
    | some 1 => decodeUtf8 fuel (position + 1) (Char.ofNat b.toNat :: done) bs
    | some n =>
      match decodeRest 1 (n - 1) (b.toNat % 2 ^ (7 - n)) (secondBounds b) bs with
      | .ok (code, rest) => decodeUtf8 fuel (position + n) (Char.ofNat code :: done) rest
      | .error (count, reason) => .error (refuse count reason)

/-- Reads bytes as ASCII. -/
def decodeAscii (position : Nat) : List UInt8 → Except DecodeError (List Char)
  | [] => .ok []
  | b :: bs =>
    if b < 0x80 then (Char.ofNat b.toNat :: ·) <$> decodeAscii (position + 1) bs
    else .error ⟨"ascii", b, position, 1, .notAscii⟩

/-- Reads bytes as text. -/
def decode (e : Encoding) (bs : List UInt8) : Except DecodeError String :=
  String.ofList <$>
    match e with
    | utf8 => decodeUtf8 bs.length 0 [] bs
    | latin1 => .ok (bs.map fun b => Char.ofNat b.toNat)
    | ascii => decodeAscii 0 bs

/-- Reads bytes as text whose lines end in line feeds. -/
def decodeLines (e : Encoding) (bs : List UInt8) : Except DecodeError String :=
  (fun s => String.ofList (unifyNewlines s.toList)) <$> e.decode bs

end Encoding

end Stencil
