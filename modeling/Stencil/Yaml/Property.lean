import Stencil.Files.Encoding
import Stencil.Yaml.Tag
import Stencil.Yaml.Text

/-!
# YAML — names of nodes, tags and directives

The anchors and tags in front of a node, and the directives in front of a document. A tag is a handle,
which a directive may have given a meaning, and a suffix; or it is written in full.
-/

namespace Stencil

open Stencil.Text (isLetter isDigit isNameChar)

/-- A directive: the version of a document, what a handle of tags stands for, or one that is not known. -/
inductive YamlDirective where
  | version (v : YamlVersion)
  | handle (name meaning : String)
  | unknown
  deriving DecidableEq, Repr, Inhabited

/-- A tag as it is written: in full, or as a handle and a suffix. -/
inductive YamlTagText where
  | full (name : String)
  | short (handle suffix : String)
  deriving DecidableEq, Repr, Inhabited

namespace YamlRead

/-- A character of the name of an anchor: any that prints, but for those of flow collections. -/
def isAnchorChar (c : Char) : Bool :=
  let n := c.toNat
  !(c = ',' || c = '[' || c = ']' || c = '\x7b' || c = '\x7d') &&
    ((0x21 ≤ n && n ≤ 0x7E) || (0xA0 ≤ n && c ≠ '\ufeff'))

/-- Reads the name of an anchor after its sign. -/
def anchorName : YamlRead String := do
  let name ← takeWhile isAnchorChar
  if name.isEmpty || (← rest).head? = some '\ufeff' then refuse else return String.ofList name

/-- Reads a handle of tags: an exclamation mark alone, or a name between two of them. -/
def tagHandle : YamlRead String := do
  expect '!'
  if (← rest).head? = some ' ' then return "!"
  else
    let name ← takeWhile isNameChar
    expect '!'
    return String.ofList ('!' :: name ++ ['!'])

/-- A character of a tag that stands for itself. -/
def isTagChar (old : Bool) (c : Char) : Bool :=
  isLetter c || isDigit c || "-;/?:@&=+$,_.!~*'()[]".toList.contains c || (!old && c = '#')

/-- Reads a row of bytes that are written with percent signs. -/
def tagBytes : Nat → List UInt8 → YamlRead (List UInt8)
  | 0, _ => refuse
  | n + 1, done => do
    match ← rest with
    | '%' :: h :: l :: _ =>
      match Yaml.number? 16 [h, l] with
      | some byte =>
        skipMany 3
        tagBytes n (UInt8.ofNat byte :: done)
      | none => refuse
    | '%' :: _ => refuse
    | _ => return done.reverse

/-- Reads the characters of a tag. Bytes among them are those of a text. -/
def tagChars (old : Bool) : Nat → List Char → YamlRead (List Char)
  | 0, _ => refuse
  | n + 1, done => do
    match ← rest with
    | '%' :: _ =>
      match Encoding.utf8.decode (← tagBytes (← enough) []) with
      | .ok text => tagChars old n (text.toList.reverse ++ done)
      | .error _ => refuse
    | c :: _ =>
      if isTagChar old c then
        skip
        tagChars old n (c :: done)
      else return done.reverse
    | [] => return done.reverse

/-- Reads the characters of a tag, which may not be missing. -/
def tagName (old : Bool) : YamlRead String := do
  match ← tagChars old (← enough) [] with
  | [] => refuse
  | cs => return String.ofList cs

/-- Reads a tag in front of a node. -/
def tagText (old : Bool) : YamlRead YamlTagText := do
  let twice := ((← rest).drop 1).head? = some '!'
  if twice then skip
  let cs := (← rest).drop 1
  let tag ←
    if cs.head? = some '<' then do
      skipMany 2
      let name ← tagName old
      expect '>'
      pure (.full name)
    else if gapsHere cs then do
      skip
      pure (.full "!")
    else do
      let named := (cs.takeWhile fun c => !(c = ' ' || isBreak c)).contains '!'
      let handle ← if named then tagHandle else do
        skip
        pure (if twice then "!!" else "!")
      pure (.short handle (← tagName old))
  if partsHere (← rest) then return tag else refuse

/-- Reads a number of a version. -/
def versionPart : YamlRead Nat := do
  match Yaml.number? 10 (← takeWhile isDigit) with
  | some n => return n
  | none => refuse

/-- Reads what a directive of the given name says. -/
def directiveValue (old : Bool) (name : String) : YamlRead YamlDirective := do
  if name = "YAML" then
    skipWhile (· = ' ')
    let major ← versionPart
    expect '.'
    let minor ← versionPart
    if partsHere (← rest) then return .version ⟨major, minor⟩ else refuse
  else if name = "TAG" then
    skipWhile (· = ' ')
    let handle ← tagHandle
    if (← rest).head? ≠ some ' ' then refuse
    skipWhile (· = ' ')
    let meaning ← tagName old
    if partsHere (← rest) then return .handle handle meaning else refuse
  else
    skipWhile fun c => !isBreak c
    return .unknown

/-- Reads a directive after its percent sign, with the rest of its line. -/
def directive (old : Bool) : YamlRead YamlDirective := do
  let name ← takeWhile fun c => isNameChar c || c = ':' || c = '.'
  if name.isEmpty || !partsHere (← rest) then refuse
  else
    let d ← directiveValue old (String.ofList name)
    finishLine
    return d

end YamlRead

end Stencil
