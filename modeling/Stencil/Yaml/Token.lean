import Stencil.Yaml.Property
import Stencil.Yaml.Scalar

/-!
# YAML — tokens

The tokens of a text. Indentation is made into tokens that begin and end block collections. What turns
out to be a key, when the colon after it is read, gets a token in front of it then: until that is settled,
the tokens from there on are not given out. A key without a mark stands on one line and is not long.
-/

namespace Stencil

/-- A token. -/
inductive YamlToken where
  | directive (d : YamlDirective)
  | documentStart
  | documentEnd
  | textEnd
  | blockSequence
  | blockMapping
  | blockEnd
  | flowSequence
  | flowSequenceEnd
  | flowMapping
  | flowMappingEnd
  | item
  | comma
  | key
  | value
  | alias (name : String)
  | anchor (name : String)
  | tag (t : YamlTagText)
  | scalar (text : String) (plain : Bool)
  deriving DecidableEq, Repr, Inhabited

/-- A token that may turn out to begin a key, by its number: how many flow collections are around it, and
where it stands. It has to be a key where the block mapping around it needs one. -/
structure PossibleKey where
  level : Nat
  token : Nat
  required : Bool
  index : Nat
  line : Nat
  column : Nat
  deriving DecidableEq, Repr, Inhabited

/-- The most characters that a key without a mark may take up. -/
def longestKey : Nat := 1024

/-- The tokens read from a text so far, of which some have been given out. `indent` is the column of the
innermost block collection and `outer` those around it; `flow` says of each open flow collection whether
it is a sequence; the innermost is first, also among the possible keys. -/
structure YamlTokens where
  text : YamlText
  tokens : Array YamlToken := #[]
  given : Nat := 0
  isComplete : Bool := false
  indent : Int := -1
  outer : List Int := []
  flow : List Bool := []
  keyAllowed : Bool := true
  keys : List PossibleKey := []
  version : YamlVersion := .standard
  deriving Inhabited

/-- A step of reading tokens. -/
abbrev YamlScan := StateT YamlTokens YamlResult

namespace YamlScan

open YamlRead (gapsHere isMark isStart isEnd startsPlain)

/-- Refuses the text. -/
def refuse {α : Type} : YamlScan α :=
  throw .malformed

/-- A step of reading the text. -/
def reading {α : Type} (x : YamlRead α) : YamlScan α := fun s =>
  match x s.text with
  | .ok (a, t) => .ok (a, { s with text := t })
  | .error e => .error e

/-- Adds a token. -/
def emit (t : YamlToken) : YamlScan Unit :=
  modify fun s => { s with tokens := s.tokens.push t }

/-- Whether the text is inside a flow collection. -/
def inFlow : YamlScan Bool := do
  return !(← get).flow.isEmpty

/-- Whether the document has the old version. -/
def isOld : YamlScan Bool := do
  return (← get).version = .old

/-- Says whether a key without a mark may begin next. -/
def allowKey (b : Bool) : YamlScan Unit :=
  modify fun s => { s with keyAllowed := b }

/-- Gives up the possible key of the innermost flow collection, which must not be a required one. -/
def forgetKey : YamlScan Unit := do
  let s ← get
  match s.keys with
  | k :: ks =>
    if k.level = s.flow.length then
      if k.required then refuse else set { s with keys := ks }
  | [] => return ()

/-- Gives up the possible keys that stand on an earlier line or have become too long. -/
def forgetOldKeys : YamlScan Unit := do
  let s ← get
  let isOpen (k : PossibleKey) : Bool := k.line = s.text.line && s.text.index - k.index ≤ longestKey
  if s.keys.all isOpen then return ()
  else if s.keys.any fun k => k.required && !isOpen k then refuse
  else set { s with keys := s.keys.filter isOpen }

/-- Takes the next token for a possible key, where a key may begin. -/
def beginKey : YamlScan Unit := do
  if (← get).keyAllowed then
    forgetKey
    modify fun s =>
      let k : PossibleKey :=
        { level := s.flow.length, token := s.tokens.size,
          required := s.flow.isEmpty && s.indent = s.text.column,
          index := s.text.index, line := s.text.line, column := s.text.column }
      { s with keys := k :: s.keys }

/-- Ends the block collections that stand further in than a column. -/
def endBlocks (column : Int) : List Int → YamlScan Unit
  | [] => return ()
  | o :: os => do
    if (← get).indent ≤ column then return ()
    else
      modify fun s => { s with indent := o, outer := os }
      emit .blockEnd
      endBlocks column os

/-- Ends the block collections that stand further in than a column, outside flow collections. -/
def closeBlocks (column : Int) : YamlScan Unit := do
  let s ← get
  if s.flow.isEmpty then endBlocks column s.outer

/-- Begins a block collection at a column, unless one stands there already; whether it did. -/
def openBlock (column : Int) : YamlScan Bool := do
  let s ← get
  if s.indent < column then
    set { s with indent := column, outer := s.indent :: s.outer }
    return true
  else return false

/-- Goes past spaces, line ends and comments. Inside flow collections, tabs are spaces; outside them, a
key may begin on each new line. -/
def skipGap : Nat → YamlScan Unit
  | 0 => refuse
  | n + 1 => do
    let flow ← inFlow
    reading (YamlRead.skipWhile fun c => c = ' ' || (flow && c = '\t'))
    reading YamlRead.skipComment
    match ← reading YamlRead.lineEnd with
    | [] => return ()
    | _ =>
      if !flow then allowKey true
      skipGap n

/-- A token that stands between parts of the document, of so many characters. -/
def documentMark (t : YamlToken) : YamlScan Unit := do
  closeBlocks (-1)
  forgetKey
  allowKey false
  reading (YamlRead.skipMany 3)
  emit t

/-- A directive, which ends what is open as a mark does. -/
def directive : YamlScan Unit := do
  closeBlocks (-1)
  forgetKey
  allowKey false
  reading YamlRead.skip
  let d ← reading (YamlRead.directive (← isOld))
  match d with
  | .version v => modify fun s => { s with version := v }
  | _ => pure ()
  emit (.directive d)

/-- The beginning of a flow collection. -/
def openFlow (isSequence : Bool) : YamlScan Unit := do
  beginKey
  modify fun s => { s with flow := isSequence :: s.flow, keyAllowed := true }
  reading YamlRead.skip
  emit (if isSequence then .flowSequence else .flowMapping)

/-- The end of a flow collection. -/
def closeFlow (isSequence : Bool) : YamlScan Unit := do
  forgetKey
  modify fun s => { s with flow := s.flow.tail, keyAllowed := false }
  reading YamlRead.skip
  emit (if isSequence then .flowSequenceEnd else .flowMappingEnd)

/-- A comma. -/
def comma : YamlScan Unit := do
  allowKey true
  forgetKey
  reading YamlRead.skip
  emit .comma

/-- Begins a block collection at a mark that stands here, which has to be where a key may begin. -/
def beginAtMark (start : YamlToken) : YamlScan Unit := do
  let s ← get
  if s.flow.isEmpty then
    if !s.keyAllowed then refuse
    if ← openBlock s.text.column then emit start

/-- The mark of an item of a block sequence. -/
def item : YamlScan Unit := do
  beginAtMark .blockSequence
  allowKey true
  forgetKey
  reading YamlRead.skip
  emit .item

/-- The mark of a key. -/
def key : YamlScan Unit := do
  beginAtMark .blockMapping
  allowKey (!(← inFlow))
  forgetKey
  reading YamlRead.skip
  emit .key

/-- Makes a possible key a key: it gets a token in front, and begins a block mapping if it stands
further in than the one around it. -/
def confirmKey (k : PossibleKey) : YamlScan Unit := do
  modify fun s => { s with keys := s.keys.tail, tokens := s.tokens.insertIdxIfInBounds k.token .key }
  if !(← inFlow) then
    if ← openBlock k.column then
      modify fun s => { s with tokens := s.tokens.insertIdxIfInBounds k.token .blockMapping }
  allowKey false

/-- The colon before a value, which makes the possible key before it one. -/
def value : YamlScan Unit := do
  let s ← get
  match s.keys.head?.filter fun k => k.level = s.flow.length with
  | some k => confirmKey k
  | none =>
    beginAtMark .blockMapping
    allowKey (!(← inFlow))
    forgetKey
  reading YamlRead.skip
  emit .value

/-- A token that a key may begin with; no key may begin after it. -/
def content (t : YamlScan YamlToken) : YamlScan Unit := do
  beginKey
  allowKey false
  emit (← t)

/-- A block scalar. -/
def blockScalar (folded : Bool) : YamlScan Unit := do
  allowKey true
  forgetKey
  reading YamlRead.skip
  emit (.scalar (← reading (YamlRead.block folded (← get).indent)) false)

/-- A quoted scalar. -/
def quoted (double : Bool) : YamlScan Unit :=
  content do
    reading YamlRead.skip
    return .scalar (← reading (YamlRead.quoted double)) false

/-- A plain scalar. A key may begin on the line after it. -/
def plain : YamlScan Unit :=
  content do
    let s ← get
    let (text, ended) ←
      reading (YamlRead.plain (!s.flow.isEmpty) (s.version = .old) (s.indent + 1))
    allowKey ended
    return .scalar text true

/-- Whether a colon that stands here, before the given characters, comes before a value. In a flow
collection it need not have a blank after it, except in a sequence and right after another one. -/
def isValue (cs : List Char) : YamlScan Bool := do
  let s ← get
  let afterValue := s.given < s.tokens.size && s.tokens.back? = some .value
  return gapsHere cs ||
    match s.flow with
    | [] => false
    | isSequence :: _ => s.version = .old || !(isSequence || afterValue)

/-- The end of the text. -/
def finish : YamlScan Unit := do
  closeBlocks (-1)
  forgetKey
  modify fun s => { s with keys := [], keyAllowed := false, isComplete := true }
  emit .textEnd

/-- Reads the next token, with the tokens that stand for indentation before it. -/
def next : YamlScan Unit := do
  skipGap (← reading YamlRead.enough)
  forgetOldKeys
  let column := (← get).text.column
  closeBlocks column
  let flow ← inFlow
  match ← reading YamlRead.rest with
  | [] => finish
  | c :: cs =>
    if c = '%' && column = 0 then directive
    else if column = 0 && isStart (c :: cs) then documentMark .documentStart
    else if column = 0 && isEnd (c :: cs) then documentMark .documentEnd
    else if c = '[' then openFlow true
    else if c = '\x7b' then openFlow false
    else if c = ']' then closeFlow true
    else if c = '\x7d' then closeFlow false
    else if c = ',' then comma
    else if c = '-' && gapsHere cs then item
    else if c = '?' && (flow || gapsHere cs) then key
    else if c = ':' && (← isValue cs) then value
    else if c = '*' then content do
      reading YamlRead.skip
      return .alias (← reading YamlRead.anchorName)
    else if c = '&' then content do
      reading YamlRead.skip
      return .anchor (← reading YamlRead.anchorName)
    else if c = '!' then content do
      return .tag (← reading (YamlRead.tagText (← isOld)))
    else if c = '|' && !flow then blockScalar false
    else if c = '>' && !flow then blockScalar true
    else if c = '\'' then quoted false
    else if c = '"' then quoted true
    else if startsPlain flow (← isOld) (c :: cs) then plain
    else refuse

/-- Whether more has to be read before the next token can be given out: there is none left, or it may
turn out to be a key. -/
def needsMore : YamlScan Bool := do
  forgetOldKeys
  let s ← get
  return s.tokens.size ≤ s.given || s.keys.any fun k => k.token = s.given

/-- Reads until the next token can be given out. -/
def fill : Nat → YamlScan Unit
  | 0 => refuse
  | n + 1 => do
    if (← get).isComplete then return ()
    else if ← needsMore then
      next
      fill n

/-- The next token, which is not yet given out. -/
def peek : YamlScan YamlToken := do
  fill (← reading YamlRead.enough)
  let s ← get
  return s.tokens[s.given]?.getD .textEnd

/-- Gives out the next token. -/
def take : YamlScan Unit :=
  modify fun s => { s with given := s.given + 1 }

end YamlScan

end Stencil
