import Stencil.Host.Builtin
import Stencil.Host.Object

/-!
# Host — members and items

How templates use host values: reading a property, calling a method, and indexing. A property name is
tried as it is, with its initial in the other case, and with underscores in the place of capitals; it
has to lead to exactly one member.
-/

namespace Stencil

open Step (fault)

/-- A method bound to its object: the class of the object if it is a host object, the method that the
name stands for, and the signature if it shows one. -/
structure Method where
  owner : Option (HostClass × ObjectRef)
  self : Value
  target : String
  signature : Option Signature

/-- What a value has under a name. -/
inductive Member where
  | absent
  | value (v : Value)
  | method (m : Method)

namespace Member

/-- The member of a value under a name. Reading a computed attribute computes it. -/
def find (v : Value) (name : String) : Step Member := do
  match v with
  | .object cls ref =>
    match cls.methods.lookup name with
    | some (target, sig) => return .method ⟨some (cls, ref), v, target, some sig⟩
    | none =>
      if (cls.functions.lookup name).isSome then return .value (.function cls name)
      else
        match ← Object.attribute? cls ref name with
        | some a => return .value a
        | none => return .absent
  | .type cls =>
    if (cls.methods.lookup name).isSome || (cls.functions.lookup name).isSome then
      return .value (.function cls name)
    else if cls.getters.contains name then return .value (.getter cls name)
    else
      match cls.constants.get? name with
      | some a => return .value a
      | none => return .absent
  | _ =>
    match (Builtin.methods v).lookup name with
    | some sig => return .method ⟨none, v, name, sig⟩
    | none =>
      match ← Builtin.attribute? v name with
      | some a => return .value a
      | none => return .absent

end Member

/-- Whether two values are one and the same: immutable ones when they are equal in type and content. -/
def isSame (lists : Heap (Array Value)) (a b : Value) : Bool :=
  match a, b with
  | .list r, .list r' => r == r'
  | a, b => a.typeName == b.typeName && a.equals lists b

/-- Whether two members are one member under two names. -/
def Member.isSame (lists : Heap (Array Value)) : Member → Member → Bool
  | .value a, .value b => Stencil.isSame lists a b
  | .method m, .method m' => m.owner.isSome && m.owner == m'.owner && m.target == m'.target
  | _, _ => false

variable {scope : Scope}

/-- Calls a method. -/
def Method.call (m : Method) (args : List Value) : Script scope Value := do
  match m.owner with
  | some (cls, _) => Object.call cls m.self m.target args
  | none => Builtin.call (← Act.fuel) m.self m.target args

/-- Names with underscores in the place of capitals: a capital after a small letter or a digit becomes
an underscore and a small letter. -/
def snakeCase (name : String) : String :=
  let rec go (before : Char) : List Char → List Char
    | [] => []
    | c :: cs =>
      if 'A' ≤ c && c ≤ 'Z' && (('a' ≤ before && before ≤ 'z') || Text.isDigit before) then
        '_' :: c.toLower :: go c cs
      else c :: go c cs
  String.ofList (go ' ' name.toList)

/-- The names under which a property is looked for, each once. -/
def propertyNames (name : String) : List String :=
  [name, Text.flipInitial name, snakeCase name].eraseDups

/-- Whether a name is hidden from templates. -/
def isHiddenName (name : String) : Bool :=
  name.startsWith "_"

namespace Host

/-- The members that a property may stand for, with the names they were found under. Methods count only
when they can be called without arguments, and a member counts once. -/
def candidates (v : Value) (found : List (String × Member)) :
    List String → Step (List (String × Member))
  | [] => return found
  | name :: names => do
    if isHiddenName name then candidates v found names
    else
      let m ← Member.find v name
      let lists ← Run.allLists
      let usable := match m with
        | .absent => false
        | .value _ => true
        | .method m => accepted m.signature []
      if usable && !found.any (fun p => m.isSame lists p.2) then
        candidates v (found ++ [(name, m)]) names
      else candidates v found names

/-- Reads a property of a value. A map gives the value of the key. -/
def propertyOf (v : Value) (name : String) : Script scope Value := do
  match v with
  | .map entries => return (lookupKey? entries (.str name)).getD .null
  | _ =>
    if name.isEmpty then Script.fault .badIndex "string index out of range"
    else
      match ← candidates v [] (propertyNames name) with
      | [] => Script.fail (.access (.noGetter name (← textOf v) v.typeName))
      | [(_, .value a)] => return a
      | [(_, .method m)] => m.call []
      | [(_, .absent)] => return .null
      | several => Script.fail (.access (.ambiguous (several.map (·.1))))

/-- Calls a function of a class; a method of the class takes its object as the first argument. -/
def callFunction (cls : HostClass) (name : String) (args : List Value) : Script scope Value :=
  match cls.methods.lookup name, args with
  | some (target, _), self :: args => Object.call cls self target args
  | _, args => Object.make cls args

/-- The signature of a function of a class. -/
def functionSignature (cls : HostClass) (name : String) : Signature :=
  match cls.functions.lookup name, cls.methods.lookup name with
  | some sig, _ => sig
  | none, some (_, sig) => { sig with params := {} :: sig.params }
  | none, none => {}

/-- What calling a value or member takes: a signature, if it shows one, and what it does. -/
def callable? : Member → Option (Option Signature × (List Value → Script scope Value))
  | .method m => some (m.signature, m.call)
  | .value (.function cls name) =>
    some (some (functionSignature cls name), callFunction cls name)
  | .value (.type cls) => some (some cls.construction, fun args => Object.make cls args)
  | _ => none

/-- Calls a method of a value. -/
def callMethodOf (v : Value) (name : String) (args : List Value) : Script scope Value := do
  let m ← if isHiddenName name then pure .absent else Member.find v name
  match callable? m with
  | none => Script.fail (.access (.noMethod name v.typeName))
  | some (sig, run) =>
    if accepted sig args then run args
    else Script.fail (.access (.argumentTypes name (← textsOf args)))

/-- The item of a sequence at a position, counted from the end if negative. -/
def itemAt (size : Nat) (item : Nat → Value) (n : Int) : Step Value :=
  if n < 0 then
    if n + size < 0 then Step.fail (.access (.indexBefore n size)) else return item (n + size).toNat
  else if n ≥ size then Step.fail (.access (.indexAfter n size))
  else return item n.toNat

/-- Indexes a sequence of a size, which has to fit into a word of 64 bits. -/
def indexSequence (size : Nat) (item : Nat → Value) (key : Value) : Script scope Value := do
  match key with
  | .int n =>
    let _ ← Builtin.smallIndex (.int size)
    itemAt size item n
  | key => Script.fail (.access (.indexType (← textOf key)))

/-- Indexes a value: a sequence by position, a map by key, and any other value by its method `get`. -/
def indexOf (v key : Value) : Script scope Value := do
  match v with
  | .list r =>
    let items ← Run.listItems r
    indexSequence items.size (items.getD · .null) key
  | .tuple items => indexSequence items.length (items.getD · .null) key
  | .range start stop step =>
    indexSequence (rangeLength start stop step) (fun i => .int (start + i * step)) key
  | .map entries => Builtin.lookup entries key .null
  | _ => callMethodOf v "get" [key]

/-! ### Where no evaluation is under way -/

/-- Reads a property of a value. -/
def property (d : Deeper) (v : Value) (name : String) : Run Value :=
  (propertyOf v name : Script default Value).run d

/-- Calls a method of a value. -/
def callMethod (d : Deeper) (v : Value) (name : String) (args : List Value) : Run Value :=
  (callMethodOf v name args : Script default Value).run d

/-- Indexes a value. -/
def index (d : Deeper) (v key : Value) : Run Value :=
  (indexOf v key : Script default Value).run d

end Host

end Stencil
