import Stencil.Yaml.Tag

/-!
# YAML — nodes

Nodes of documents with what they are made of and their values. A mapping takes over the pairs of the
mappings that it names under the merge word; its own pairs come after them. The tag of a mapping that is
named does not matter, and neither does the tag of a list of them.
-/

namespace Stencil

/-- A node and its value, or the problem that there is none for. -/
inductive YamlNode where
  | scalar (value : YamlResult Yaml)
  | list (items : List YamlNode) (value : YamlResult Yaml)
  | map (pairs : List (YamlNode × YamlNode)) (value : YamlResult Yaml)

namespace YamlNode

/-- The value of a node. -/
def value : YamlNode → YamlResult Yaml
  | scalar v | list _ v | map _ v => v

instance : Inhabited YamlNode := ⟨scalar (.ok .null)⟩

/-- A pair of a mapping. -/
abbrev Pair := YamlNode × YamlNode

/-- Whether a node is the word that names other mappings. -/
def isMerge (k : YamlNode) : Bool :=
  match k.value with
  | .ok .merge => true
  | _ => false

/-- The pairs of a mapping that name no other mappings. -/
def ownPairs (pairs : List Pair) : List Pair :=
  pairs.filter fun p => !p.1.isMerge

mutual

/-- The pairs that a node brings into a mapping that names it: those of a mapping, or of several, of
which the first is put last and so has the last word. -/
def brought : YamlNode → YamlResult (List Pair)
  | map pairs _ => return (← taken pairs) ++ ownPairs pairs
  | list items _ => broughtByAll items
  | scalar _ => .error .malformed

/-- The pairs that several mappings bring in. -/
def broughtByAll : List YamlNode → YamlResult (List Pair)
  | [] => .ok []
  | map pairs _ :: items => do
    let first := (← taken pairs) ++ ownPairs pairs
    return (← broughtByAll items) ++ first
  | _ :: _ => .error .malformed

/-- The pairs that a mapping takes over. Only a name that brings in nothing may have another one after
it. -/
def taken : List Pair → YamlResult (List Pair)
  | [] => .ok []
  | (k, v) :: pairs => do
    if k.isMerge then
      match ← brought v with
      | [] => taken pairs
      | more => if pairs.any fun p => p.1.isMerge then throw .malformed else return more
    else taken pairs

end

/-- The entry of a pair. -/
def entry (p : Pair) : YamlResult (Yaml × Yaml) := do
  let key ← (← p.1.value).asKey
  return (key, ← (← p.2.value).asValue)

/-- The entries of a mapping. The keys of one that takes over no others have to be distinct. -/
def entries (pairs : List Pair) : YamlResult (List (Yaml × Yaml)) := do
  let more ← taken pairs
  let put (distinct : Bool) (es : List (Yaml × Yaml)) (p : Pair) := do
    Yaml.insert distinct es (← entry p)
  let es ← more.foldlM (put false) []
  let es ← (ownPairs pairs).foldlM (put more.isEmpty) es
  return es.reverse

/-- The pair of a mapping that has just one. -/
def single : YamlNode → YamlResult Pair
  | map [p] _ => .ok p
  | _ => .error .malformed

/-- The entries of an ordered mapping, of which each is a mapping of its own. No key comes twice. -/
def orderedEntries (items : List YamlNode) : YamlResult (List (Yaml × Yaml)) := do
  let es ← items.foldlM (fun es item => do
    let p ← item.single
    let key ← (← p.1.value).asValue
    key.checkKey
    if es.any fun f => f.1.same key then throw .repeatedKey
    return (key, ← (← p.2.value).asValue) :: es) []
  return es.reverse

/-- A list of pairs, of which each is a mapping of its own. -/
def pairList (items : List YamlNode) : YamlResult (List Yaml) :=
  items.mapM fun item => do
    let p ← item.single
    return .tuple [← (← p.1.value).asValue, ← (← p.2.value).asValue]

/-- The value of a sequence with a tag. -/
def listValue (tag : YamlTag) (items : List YamlNode) : YamlResult Yaml := do
  match tag with
  | .plain | .list => return .list (← items.mapM fun item => do (← item.value).asValue)
  | .pairs => return .list (← pairList items)
  | .omap => return .map true (← orderedEntries items)
  | _ => throw .malformed

/-- The value of a mapping with a tag. -/
def mapValue (tag : YamlTag) (pairs : List Pair) : YamlResult Yaml := do
  match tag with
  | .plain | .map => return .map false (← entries pairs)
  | .set => return .set ((← entries pairs).map (·.1))
  | _ => throw .malformed

/-- A sequence, which may have a tag. -/
def ofItems (tag : Option YamlTag) (items : List YamlNode) : YamlNode :=
  list items (listValue (tag.getD .plain) items)

/-- A mapping, which may have a tag. -/
def ofPairs (tag : Option YamlTag) (pairs : List Pair) : YamlNode :=
  map pairs (mapValue (tag.getD .plain) pairs)

end YamlNode

end Stencil
