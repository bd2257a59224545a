import Stencil.Yaml.Node
import Stencil.Yaml.Token

/-!
# YAML — documents

Reads the nodes of a document from its tokens. A node is a scalar, a sequence or a mapping, with an anchor
and a tag if it has them; an alias stands for the node of an anchor before it. A document that is not well
formed is refused before the values of its nodes are looked at.
-/

namespace Stencil

/-- The handles of tags that need no directive, and what they stand for. -/
def standardHandles : List (String × String) :=
  [("!", "!"), ("!!", YamlTag.core)]

/-- A document being read: its tokens, the anchors so far with their nodes, and the handles of tags. The
node of an anchor that is still being read counts as empty. -/
structure YamlReading where
  tokens : YamlTokens
  anchors : Array (String × YamlNode) := #[]
  handles : List (String × String) := []

/-- A step of reading a document. -/
abbrev YamlParse := StateT YamlReading YamlResult

/-- What stands in front of a node. -/
structure NodeProperties where
  anchor : Option String := none
  tag : Option YamlTag := none

namespace YamlParse

/-- Refuses the text. -/
def refuse {α : Type} : YamlParse α :=
  throw .malformed

/-- A step of reading tokens. -/
def scanning {α : Type} (x : YamlScan α) : YamlParse α := fun s =>
  match x s.tokens with
  | .ok (a, t) => .ok (a, { s with tokens := t })
  | .error e => .error e

/-- The next token. -/
def peek : YamlParse YamlToken :=
  scanning YamlScan.peek

/-- Goes past the next token. -/
def take : YamlParse Unit :=
  scanning YamlScan.take

/-- The version of the document. -/
def version : YamlParse YamlVersion := do
  return (← get).tokens.version

/-- The node of an anchor. -/
def aliased (name : String) : YamlParse YamlNode := do
  match (← get).anchors.findRev? fun a => a.1 = name with
  | some a => return a.2
  | none => refuse

/-- Reads a node that may have an anchor: `start` is what an alias to it from inside stands for. -/
def anchored (anchor : Option String) (start : YamlNode) (x : YamlParse YamlNode) :
    YamlParse YamlNode := do
  match anchor with
  | none => x
  | some name =>
    let place := (← get).anchors.size
    modify fun s => { s with anchors := s.anchors.push (name, start) }
    let v ← x
    modify fun s => { s with anchors := s.anchors.setIfInBounds place (name, v) }
    return v

/-- The tag that a written tag is. -/
def tag (t : YamlTagText) : YamlParse YamlTag := do
  match t with
  | .full name => return .ofName name
  | .short handle suffix =>
    match (← get).handles.lookup handle with
    | some start => return .ofName (start ++ suffix)
    | none => refuse

/-- Reads the anchor and the tag in front of a node, in any order. -/
def properties : YamlParse NodeProperties := do
  match ← peek with
  | .anchor name =>
    take
    match ← peek with
    | .tag t =>
      take
      return { anchor := some name, tag := some (← tag t) }
    | _ => return { anchor := some name }
  | .tag t =>
    take
    match ← peek with
    | .anchor name =>
      take
      return { anchor := some name, tag := some (← tag t) }
    | _ => return { tag := some (← tag t) }
  | _ => return {}

/-- A scalar. One that is taken as plain has the tag of its form, which the versions that
are not known have no rule for. -/
def scalar (tag : Option YamlTag) (plain : Bool) (text : String) : YamlParse YamlNode := do
  let v ← version
  let tag ←
    match tag with
    | none | some .plain =>
      if !plain && tag.isNone then pure .str
      else if v = .old || v = .standard then pure (YamlTag.ofPlain (v = .old) text)
      else throw (.unknownVersion v.major v.minor)
    | some t => pure t
  return .scalar (Yaml.ofScalar (v ≠ .standard) tag text)

/-- A scalar that is left out. -/
def empty : YamlParse YamlNode :=
  scalar none true ""

/-- Goes past a comma between the parts of a flow collection, which has to stand before all but the
first. -/
def separator (isFirst : Bool) : YamlParse Unit := do
  if !isFirst then
    if (← peek) = .comma then take else refuse

mutual

/-- Reads a node. Outside flow collections it may be a block collection; a value of a block mapping may
also be a sequence that stands no further in. -/
def node : Nat → Bool → Bool → YamlParse YamlNode
  | 0, _, _ => refuse
  | n + 1, block, flush => do
    match ← peek with
    | .alias name =>
      take
      aliased name
    | _ =>
      let p ← properties
      match ← peek with
      | .scalar text plain =>
        take
        anchored p.anchor default (scalar p.tag plain text)
      | .flowSequence =>
        take
        anchored p.anchor (.ofItems none []) (return YamlNode.ofItems p.tag (← flowItems n true []))
      | .flowMapping =>
        take
        anchored p.anchor (.ofPairs none []) (return YamlNode.ofPairs p.tag (← flowPairs n true []))
      | t =>
        if t = .item && flush then
          anchored p.anchor (.ofItems none []) (return YamlNode.ofItems p.tag (← flushItems n []))
        else if t = .blockSequence && block then
          take
          anchored p.anchor (.ofItems none []) (return YamlNode.ofItems p.tag (← blockItems n []))
        else if t = .blockMapping && block then
          take
          anchored p.anchor (.ofPairs none []) (return YamlNode.ofPairs p.tag (← blockPairs n []))
        else if p.anchor.isSome || p.tag.isSome then
          anchored p.anchor default (scalar p.tag true "")
        else refuse

/-- Reads a node unless one of the given tokens shows that it is left out. -/
def nodeBefore : Nat → Bool → Bool → List YamlToken → YamlParse YamlNode
  | 0, _, _, _ => refuse
  | n + 1, block, flush, ends => do
    if ends.contains (← peek) then empty else node n block flush

/-- Reads a value with the colon before it, each of which may be left out. -/
def valueBefore : Nat → Bool → Bool → List YamlToken → YamlParse YamlNode
  | 0, _, _, _ => refuse
  | n + 1, block, flush, ends => do
    if (← peek) = .value then
      take
      nodeBefore n block flush ends
    else empty

/-- Reads the rest of the items of a flow sequence and its end, given those before it, last first. A
key among them begins a mapping of one pair. -/
def flowItems : Nat → Bool → List YamlNode → YamlParse (List YamlNode)
  | 0, _, _ => refuse
  | n + 1, isFirst, done => do
    if (← peek) = .flowSequenceEnd then
      take
      return done.reverse
    else
      separator isFirst
      match ← peek with
      | .flowSequenceEnd =>
        take
        return done.reverse
      | .key =>
        take
        let k ← nodeBefore n false false [.value, .comma, .flowSequenceEnd]
        let v ← valueBefore n false false [.comma, .flowSequenceEnd]
        flowItems n false (YamlNode.ofPairs none [(k, v)] :: done)
      | _ => flowItems n false ((← node n false false) :: done)

/-- Reads the rest of the pairs of a flow mapping and its end, given those before it, last first. -/
def flowPairs : Nat → Bool → List YamlNode.Pair → YamlParse (List YamlNode.Pair)
  | 0, _, _ => refuse
  | n + 1, isFirst, done => do
    if (← peek) = .flowMappingEnd then
      take
      return done.reverse
    else
      separator isFirst
      let t ← peek
      if t = .flowMappingEnd then
        take
        return done.reverse
      else if t = .key || (t = .value && (← version).isNewer) then
        if t = .key then take
        let k ← nodeBefore n false false [.value, .comma, .flowMappingEnd]
        let v ← valueBefore n false false [.comma, .flowMappingEnd]
        flowPairs n false ((k, v) :: done)
      else
        let k ← node n false false
        flowPairs n false ((k, ← empty) :: done)

/-- Reads the items of a block sequence and its end. -/
def blockItems : Nat → List YamlNode → YamlParse (List YamlNode)
  | 0, _ => refuse
  | n + 1, done => do
    match ← peek with
    | .item =>
      take
      let v ← nodeBefore n true false [.item, .blockEnd]
      blockItems n (v :: done)
    | .blockEnd =>
      take
      return done.reverse
    | _ => refuse

/-- Reads the items of a block sequence that stands no further in than the mapping around it. -/
def flushItems : Nat → List YamlNode → YamlParse (List YamlNode)
  | 0, _ => refuse
  | n + 1, done => do
    if (← peek) = .item then
      take
      let v ← nodeBefore n true false [.item, .key, .value, .blockEnd]
      flushItems n (v :: done)
    else return done.reverse

/-- Reads the pairs of a block mapping and its end. -/
def blockPairs : Nat → List YamlNode.Pair → YamlParse (List YamlNode.Pair)
  | 0, _ => refuse
  | n + 1, done => do
    let t ← peek
    if t = .key || (t = .value && (← version).isNewer) then
      if t = .key then take
      let k ← if t = .key then nodeBefore n true true [.key, .value, .blockEnd] else empty
      let v ← valueBefore n true true [.key, .value, .blockEnd]
      blockPairs n ((k, v) :: done)
    else if t = .blockEnd then
      take
      return done.reverse
    else refuse

end

/-- Reads the directives before a document; of each kind there may be one. -/
def directives : Nat → Bool → YamlParse Unit
  | 0, _ => refuse
  | n + 1, versioned => do
    match ← peek with
    | .directive d =>
      take
      match d with
      | .version v => if versioned || v.major ≠ 1 then refuse else directives n true
      | .handle name start =>
        let s ← get
        if (s.handles.lookup name).isSome then refuse
        else
          set { s with handles := (name, start) :: s.handles }
          directives n versioned
      | .unknown => directives n versioned
    | _ => return ()

/-- Goes past the marks that end a document. -/
def skipEnds : Nat → YamlParse Unit
  | 0 => refuse
  | n + 1 => do
    if (← peek) = .documentEnd then
      take
      skipEnds n

/-- Reads the document that a text holds. Nothing but marks that end it may come after it, and just one
of them unless the version is old. -/
def document (fuel : Nat) : YamlParse YamlNode := do
  let v ← match ← peek with
    | .textEnd => pure default
    | .directive _ | .documentStart => do
      directives fuel false
      modify fun s => { s with handles := s.handles ++ standardHandles }
      if (← peek) = .documentStart then take else refuse
      match ← peek with
      | .directive _ | .documentStart | .documentEnd | .textEnd => empty
      | _ => node fuel true false
    | _ => do
      modify fun s => { s with handles := standardHandles }
      node fuel true false
  if (← peek) = .documentEnd then take
  if (← version) = .old then skipEnds fuel
  if (← peek) = .textEnd then return v else refuse

end YamlParse

namespace Yaml

/-- Whether a character may stand in a YAML text. -/
def isAllowed (c : Char) : Bool :=
  let n := c.toNat
  n == 0x09 || n == 0x0A || n == 0x0D || (0x20 ≤ n && n ≤ 0x7E) || n == 0x85 ||
    (0xA0 ≤ n && n ≤ 0xD7FF) || (0xE000 ≤ n && n ≤ 0xFFFD) || 0x10000 ≤ n

/-- The value of a YAML text that holds one document, or none. Its lines end in line feeds. -/
def read (text : String) : YamlResult Yaml := do
  let all := text.toList
  if !all.all isAllowed then throw .malformed
  let cs := if all.head? = some '\ufeff' then all.tail else all
  let size := cs.length
  let (node, _) ← (YamlParse.document (8 * size + 16)).run
    { tokens := { text := { rest := cs, size } } }
  (← node.value).asValue

end Yaml

end Stencil
