import Stencil.Yaml.Date

/-!
# YAML — tags

Tags, which say what a part of a document is taken as. A plain scalar without a tag gets one by its form.
There are tags of scalars, of sequences and of mappings; a scalar whose tag is none of a scalar has no
value.
-/

namespace Stencil

/-- A version of YAML. -/
structure YamlVersion where
  major : Nat
  minor : Nat
  deriving DecidableEq, Repr, Inhabited

namespace YamlVersion

/-- The version of a document that names none. -/
def standard : YamlVersion := ⟨1, 2⟩

/-- The version that has more words for the truth values, and other forms of numbers. -/
def old : YamlVersion := ⟨1, 1⟩

/-- Whether a version comes after the old one. -/
def isNewer (v : YamlVersion) : Bool :=
  1 < v.major || (v.major = 1 && 1 < v.minor)

end YamlVersion

/-- A tag. The tag `plain`, which is written `!`, has a scalar taken as if it were plain. -/
inductive YamlTag where
  | null
  | bool
  | int
  | float
  | str
  | timestamp
  | binary
  | merge
  | default
  | list
  | pairs
  | omap
  | map
  | set
  | plain
  | other
  deriving DecidableEq, Repr, Inhabited

namespace YamlTag

/-- What the names of the tags of the core schema begin with. -/
def core : String := "tag:yaml.org,2002:"

/-- The names of the tags of the core schema. -/
def names : List (String × YamlTag) :=
  [("null", null), ("bool", bool), ("int", int), ("float", float), ("str", str), ("timestamp", timestamp),
    ("binary", binary), ("merge", merge), ("value", default), ("seq", list), ("pairs", pairs),
    ("omap", omap), ("map", map), ("set", set)]

/-- The tag of a full name. -/
def ofName (name : String) : YamlTag :=
  if name = "!" then plain
  else
    match Text.dropPart? core.toList name.toList with
    | some rest => (names.lookup (String.ofList rest)).getD other
    | none => other

/-- The words for the truth values in the version 1.2. -/
def truthWords : List String := ["true", "True", "TRUE", "false", "False", "FALSE"]

/-- The words for the truth values that the version 1.1 has besides. -/
def oldTruthWords : List String :=
  ["y", "Y", "yes", "Yes", "YES", "n", "N", "no", "No", "NO", "on", "On", "ON", "off", "Off", "OFF"]

/-- The tag of a plain scalar. -/
def ofPlain (old : Bool) (text : String) : YamlTag :=
  let cs := text.toList
  if truthWords.contains text || (old && oldTruthWords.contains text) then bool
  else if Yaml.isFraction old cs then float
  else if Yaml.isInteger old cs then int
  else if text = "<<" then merge
  else if ["", "~", "null", "Null", "NULL"].contains text then null
  else if Yaml.isDate cs then timestamp
  else if text = "=" then default
  else str

end YamlTag

namespace Yaml

/-- The truth value of a word, in any case. -/
def truth (text : String) : YamlResult Yaml :=
  let word := Text.lower text
  if ["y", "yes", "true", "on"].contains word then .ok (.bool true)
  else if ["n", "no", "false", "off"].contains word then .ok (.bool false)
  else .error (.notBoolean word)

/-- The value of a character that stands for six bits. -/
def sixBits? (c : Char) : Option Nat :=
  if 'A' ≤ c && c ≤ 'Z' then some (c.toNat - 'A'.toNat)
  else if 'a' ≤ c && c ≤ 'z' then some (c.toNat - 'a'.toNat + 26)
  else if Text.isDigit c then some (c.toNat - '0'.toNat + 52)
  else if c = '+' then some 62
  else if c = '/' then some 63
  else none

/-- The bytes of a text in which each character stands for six bits, of which four make three bytes. A
group is filled up with equals signs, which end the text; other characters are passed over. `group` is
what has been read of a group, last first, and `fill` how many signs have filled it up. -/
def ofSixBits (group : List Nat) (fill : Nat) (done : List UInt8) : List Char → YamlResult (List UInt8)
  | [] => if group.isEmpty then .ok done.reverse else .error .malformed
  | c :: cs =>
    if c = '=' then
      if 2 ≤ group.length && 4 ≤ group.length + (fill + 1) then .ok done.reverse
      else ofSixBits group (if 2 ≤ group.length then fill + 1 else fill) done cs
    else
      match sixBits? c, group with
      | none, _ => ofSixBits group fill done cs
      | some n, [] => ofSixBits [n] 0 done cs
      | some n, [a] => ofSixBits [n, a] 0 (UInt8.ofNat (a * 4 + n / 16) :: done) cs
      | some n, [b, a] => ofSixBits [n, b, a] 0 (UInt8.ofNat (b % 16 * 16 + n / 4) :: done) cs
      | some n, b :: _ => ofSixBits [] 0 (UInt8.ofNat (b % 4 * 64 + n) :: done) cs

/-- The bytes that a scalar stands for. -/
def binary (text : String) : YamlResult Yaml :=
  if text.toList.any fun c => 0x7F < c.toNat then .error .malformed
  else (ofSixBits [] 0 [] text.toList).map bytes

/-- The value of a scalar with a tag. -/
def ofScalar (old : Bool) (tag : YamlTag) (text : String) : YamlResult Yaml :=
  match tag with
  | .null => .ok null
  | .bool => truth text
  | .int => (integer old text).map int
  | .float => fraction old text
  | .str => .ok (str text)
  | .timestamp => dateOf text
  | .binary => binary text
  | .merge => .ok merge
  | .default => .ok (default text)
  | _ => .error .malformed

end Yaml

end Stencil
