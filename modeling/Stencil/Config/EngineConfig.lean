import Stencil.Host.Text
import Stencil.Value.Equality
import Stencil.Value.Written
import Stencil.Yaml.Document

/-!
# Engine — configuration

The configuration of an engine: where its templates are, how they are encoded, and whether they are kept
once read. It is made from a mapping with these three keys, each of which may be missing.
-/

namespace Stencil

/-- The settings of an engine. -/
structure EngineConfig where
  resourceRoot : Path := ⟨"", []⟩
  encoding : String := "utf-8"
  cacheTemplates : Bool := true
  deriving DecidableEq, Repr, Inhabited

/-- What is wrong with a configuration. -/
inductive ConfigError where
  | unknownKeys (shown : List String)
  | notText (key typeName : String)
  | notBoolean (key typeName : String)
  | notMapping (path : Path)
  | invalidYaml (path : Path)
  deriving DecidableEq, Repr, Inhabited

/-- The configuration error in words. The reason why a text is not YAML is left out. -/
def ConfigError.message : ConfigError → String
  | unknownKeys shown => "Unknown config keys: " ++ ", ".intercalate shown
  | notText key typeName => s!"{key} must be a string, got {typeName}"
  | notBoolean key typeName => s!"{key} must be a boolean, got {typeName}"
  | notMapping path => s!"YAML must be a mapping: {path.text}"
  | invalidYaml _ => "Invalid YAML"

/-- Why a configuration cannot be loaded. Keys of several types cannot be put in order, and a scalar may
be no date or number though it has the form or the tag of one. -/
inductive ConfigFailure where
  | config (e : ConfigError)
  | fault (e : Fault)
  | resource (e : ResourceError)
  deriving DecidableEq, Repr, Inhabited

/-- A value of a configuration: its type, and what it is if it is a text or a boolean. -/
structure Setting where
  typeName : String
  text : Option String := none
  flag : Option Bool := none
  deriving DecidableEq, Repr, Inhabited

/-- A host value as a setting. -/
def Setting.ofValue (v : Value) : Setting :=
  match v with
  | .str s => { typeName := "str", text := some s }
  | .bool b => { typeName := "bool", flag := some b }
  | v => { typeName := v.plainTypeName }

/-- A value of a document as a setting. -/
def Setting.ofYaml (v : Yaml) : Setting :=
  match v with
  | .bool b => { typeName := v.typeName, flag := some b }
  | .str s => { typeName := v.typeName, text := some s }
  | v => { typeName := v.typeName }

mutual

/-- A key of a document as a host value. -/
def Yaml.toKey : Yaml → Value
  | .bool b => .bool b
  | .int n => .int n
  | .float x => .float x
  | .nan => .nan 0
  | .str s | .default s => .str s
  | .bytes bs => .bytes bs
  | .day d => .day d
  | .moment m => .moment m
  | .tuple vs => .tuple (toKeys vs)
  | .null | .merge | .list _ | .set _ | .map .. => .null

/-- The items of a key. -/
def toKeys : List Yaml → List Value
  | [] => []
  | v :: vs => v.toKey :: toKeys vs

end

/-- What is wrong with a document, as an error of the host; none if it is not well formed. -/
def YamlProblem.fault? (problem : YamlProblem) : Option Fault :=
  let kind : Option FaultKind := match problem with
    | malformed => none
    | unknownVersion .. | notBoolean _ => some .badKey
    | noDigits => some .badIndex
    | unusableKey _ => some .badType
    | dateOverflow => some .tooLarge
    | repeatedKey => some .unmet
    | noCharacter | notInteger .. | longInteger _ | notFloat _ | badDate _ => some .badValue
  kind.map fun kind => ⟨kind, problem.message⟩

namespace EngineConfig

-- The powers here are those of the core library, whatever else is imported.
attribute [local instance (high)] instPowNat

/-- The keys of a configuration. -/
def keys : List String := ["resource_root", "encoding", "cache_templates"]

/-- Whether a key is one of a configuration. -/
def isKnown : Value → Bool
  | .str s => keys.contains s
  | _ => false

/-- The sort of values that can be put in order with a value; none for a value that has no order. -/
def orderSort : Value → Option Nat
  | .bool _ | .int _ | .float _ | .nan _ => some 0
  | .str _ => some 1
  | .bytes _ => some 2
  | .tuple _ => some 3
  | .set _ => some 4
  | .day _ => some 5
  | .moment m => some (if m.zone.isSome then 7 else 6)
  | _ => none

/-- A number as a fraction of powers of two, for comparing. -/
def orderNumber : Value → Int × Int
  | .bool b => (boolInt b, 0)
  | .int n => (n, 0)
  | .float x => ((if x.isNegative then -1 else 1) * x.significand, x.scale)
  | _ => (0, 0)

mutual

/-- Whether a key comes before another of its sort; a set comes before a set that holds more. -/
def comesBefore : Value → Value → Bool
  | .str s, .str t => s < t
  | .bytes s, .bytes t => s < t
  | .tuple xs, .tuple ys => itemsBefore xs ys
  | .set xs, .set ys => xs.length < ys.length && xs.all fun x => ys.any x.sameKey
  | .day d, .day e => d.isBefore e
  | .moment m, .moment n => m.isBefore n
  | a, b =>
    let (m, p) := orderNumber a
    let (n, q) := orderNumber b
    m * 2 ^ (p - min p q).toNat < n * 2 ^ (q - min p q).toNat

/-- Whether one sequence comes before another: by the first items that differ, or else by length. -/
def itemsBefore : List Value → List Value → Bool
  | _, [] => false
  | [], _ :: _ => true
  | x :: xs, y :: ys => if x.sameKey y then itemsBefore xs ys else comesBefore x y

end

mutual

/-- The parts of two keys that have no order, if there are any. -/
def conflict? : Value → Value → Option (Value × Value)
  | .tuple xs, .tuple ys => itemsConflict? xs ys
  | a, b => if orderSort a = orderSort b && (orderSort a).isSome then none else some (a, b)

/-- The parts of the first items that differ that have no order, if there are any. -/
def itemsConflict? : List Value → List Value → Option (Value × Value)
  | x :: xs, y :: ys => if x.sameKey y then itemsConflict? xs ys else conflict? x y
  | _, _ => none

end

/-- The name of the type of a key that has no order. -/
def orderTypeName : Value → String
  | .day d => (Value.day d).typeName
  | .moment m => (Value.moment m).typeName
  | v => v.plainTypeName

/-- Why two keys have no order, in words. -/
def conflictMessage : Value → Value → String
  | .day _, .moment _ | .moment _, .day _ => "can't compare datetime.datetime to datetime.date"
  | .moment _, .moment _ => "can't compare offset-naive and offset-aware datetimes"
  | a, b =>
    s!"'<' not supported between instances of '{orderTypeName a}' and '{orderTypeName b}'"

/-- The error of comparing a key with one before it, if they have no order. -/
def compareFault? (a b : Value) : Option Fault :=
  (conflict? b a).map fun (b, a) => ⟨.badType, conflictMessage b a⟩

/-- The first key that cannot be compared with the one before it. -/
def orderFault? : List Value → Option Fault
  | a :: b :: rest => (compareFault? a b).or (orderFault? (b :: rest))
  | _ => none

/-- The first key that cannot be compared with a later one. -/
def pairFault? : List Value → Option Fault
  | [] => none
  | a :: rest => (rest.findSome? (compareFault? a)).or (pairFault? rest)

/-- The keys in order. Neighbours are compared first; to put all keys in order, those have to be compared
that differ in a part that has no order, wherever they stand. -/
def sortKeys (ks : List Value) : Except Fault (List Value) :=
  match (orderFault? ks).or (pairFault? ks) with
  | some e => .error e
  | none => .ok (ks.mergeSort fun a b => !comesBefore b a)

/-- The setting of a key. -/
def setting? (entries : List (Value × Setting)) (key : String) : Option Setting :=
  (entries.find? fun e => e.1.sameKey (.str key)).map (·.2)

/-- A setting that has to be a text. -/
def textSetting (entries : List (Value × Setting)) (key fallback : String) :
    Except ConfigFailure String :=
  match setting? entries key with
  | none => .ok fallback
  | some s =>
    match s.text with
    | some text => .ok text
    | none => .error (.config (.notText key s.typeName))

/-- A setting that has to be a boolean. -/
def flagSetting (entries : List (Value × Setting)) (key : String) (fallback : Bool) :
    Except ConfigFailure Bool :=
  match setting? entries key with
  | none => .ok fallback
  | some s =>
    match s.flag with
    | some b => .ok b
    | none => .error (.config (.notBoolean key s.typeName))

/-- The keys of a mapping that are none of a configuration, in order. -/
def unknownKeys (entries : List (Value × Setting)) : Except ConfigFailure (List Value) :=
  (sortKeys ((entries.map (·.1)).filter fun k => !isKnown k)).mapError .fault

/-- The configuration that the known keys of a mapping give, with paths taken from a directory. -/
def ofKnown (entries : List (Value × Setting)) (base : Path) : Except ConfigFailure EngineConfig := do
  let root ← textSetting entries "resource_root" "."
  let encoding ← textSetting entries "encoding" "utf-8"
  let cacheTemplates ← flagSetting entries "cache_templates" true
  return ⟨base.join (Path.ofText root), encoding, cacheTemplates⟩

/-- The configuration that a mapping gives. -/
def ofEntries (entries : List (Value × Setting)) (base : Path) : Except ConfigFailure EngineConfig := do
  match ← unknownKeys entries with
  | [] => ofKnown entries base
  | ks => throw (.config (.unknownKeys (ks.map Value.formatted)))

/-- The configuration that a host mapping gives. Its keys may be objects with a text of their own. -/
def ofMap (d : Deeper) (entries : List (Value × Value)) (base : Path) :
    Run (Except ConfigFailure EngineConfig) := do
  let entries := entries.map fun e => (e.1, Setting.ofValue e.2)
  match unknownKeys entries with
  | .error e => return .error e
  | .ok [] => return ofKnown entries base
  | .ok ks =>
    let shown ← ks.mapM fun k => (formatted k : Script default String).run d
    return .error (.config (.unknownKeys shown))

/-- The configuration that a document gives. An empty document is an empty mapping. -/
def ofYaml (document : Yaml) (path base : Path) : Except ConfigFailure EngineConfig :=
  match document with
  | .map _ entries => ofEntries (entries.map fun e => (e.1.toKey, Setting.ofYaml e.2)) base
  | v => if v.isEmpty then ofEntries [] base else .error (.config (.notMapping path))

/-- The name of the configuration file of a directory. -/
def fileName : String := "vtl.yaml"

/-- Loads a configuration from a file, or from the configuration file of a directory. Without a file,
templates are taken from the directory where it would be. -/
def load (files : FileTree) (path : Path) : Except ConfigFailure EngineConfig := do
  let stat (p : Path) : Except ConfigFailure (Option FileEntry) :=
    (files.stat p).mapError fun e => .resource (.file e)
  let path := if (← stat path) = some .directory then path.join (Path.ofText fileName) else path
  let base := path.parent
  match ← stat path with
  | some (.file bytes) =>
    let text ← (Encoding.utf8.decodeLines bytes).mapError fun e => .resource (.undecodable e)
    match Yaml.read text with
    | .ok document => ofYaml document path base
    | .error problem => throw ((problem.fault?.map .fault).getD (.config (.invalidYaml path)))
  | _ => return { resourceRoot := base }

end EngineConfig

end Stencil
