import Stencil.Host.Signature
import Stencil.Host.Text
import Stencil.Run.Loop

/-!
# Host — objects

Host objects: their classes, methods and attributes. A class also gives its methods as functions that
take the object as their first argument; such a function takes any value there, and asks it for the
attributes that the method reads.
-/

namespace Stencil

open Step (fault)

namespace HostClass

/-- The methods of a class by name: the method that a name stands for, and its signature. Two names may
stand for one method. -/
def methods : HostClass → List (String × String × Signature)
  | counter => [("next", "next", {})]
  | registry => [("get", "get", .one .text)]
  | cursor => [("hasNext", "hasNext", {}), ("has_next", "has_next", {})]
  | aliasedCursor => [("hasNext", "has_next", {}), ("has_next", "has_next", {})]
  | person =>
    [("has_tags", "has_tags", {}), ("greet", "greet", .one .text), ("add", "add", .one .integer),
      ("flag", "flag", .one .boolean), ("scale", "scale", .one .real),
      ("first_of", "first_of", .one .list), ("echo", "echo", .untyped 1 0),
      ("pair", "pair", .untyped 1 1),
      ("many", "many", { params := [{ hint := some .text }], more := true }),
      ("keyed", "keyed", { needsName := true }), ("options", "options", {}),
      ("hinted", "hinted", .untyped 1 0), ("nothing", "nothing", {}), ("fail", "fail", {}),
      ("fail_with", "fail_with", .one .text)]
  | box | unprintable => []

/-- The functions of a class that take no object, with their signatures. -/
def functions : HostClass → List (String × Signature)
  | person => [("make", .one .text)]
  | _ => []

/-- The computed attributes of a class. -/
def getters : HostClass → List String
  | person => ["nickname", "broken", "absent"]
  | _ => []

/-- The attributes that a class itself has. -/
def constants : HostClass → Bindings Value
  | person => [("species", .str "human")]
  | _ => []

/-- The parameters for making an object of a class. -/
def construction : HostClass → Signature
  | person => .untyped 1 1
  | registry | box => .untyped 1 0
  | _ => {}

end HostClass

namespace Object

/-- Whether a container or a number is something. -/
def isFull (v : Value) : Step Bool := do
  match v with
  | .null => return false
  | .bool b => return b
  | .int n => return n != 0
  | .float x => return !x.isZero
  | .str s => return !s.isEmpty
  | .bytes bs => return !bs.isEmpty
  | .tuple vs | .set vs | .keys vs => return !vs.isEmpty
  | .map entries => return !entries.isEmpty
  | .range start stop step => return rangeLength start stop step != 0
  | .list r => return !(← Run.listItems r).isEmpty
  | _ => return true

/-- A new person. Tags that are nothing become a new list. -/
def makePerson (name tags : Value) : Step Value := do
  let tags ← if ← isFull tags then pure tags else Run.newList #[]
  Run.newObject .person (.person name tags)

/-- A new object of a class. -/
def make (cls : HostClass) (args : List Value) : Step Value :=
  match cls, args with
  | .person, name :: tags => makePerson name (tags.headD .null)
  | .counter, _ => Run.newObject .counter (.counter 0)
  | .registry, [.map items] => Run.newObject .registry (.registry items)
  | cls, _ => Run.newObject cls .bare

/-- The failure of taking an item or a part of a value that has none. -/
def noItems (v : Value) : Step Value :=
  match v with
  | .type cls => fault .badType s!"type '{cls.name}' is not subscriptable"
  | v => fault .badType s!"'{v.plainTypeName}' object is not subscriptable"

/-- The first items of a value that is a sequence. -/
def firstItems (n : Nat) (v : Value) : Step Value := do
  match v with
  | .str s => return .str (String.ofList (s.toList.take n))
  | .bytes bs => return .bytes (bs.take n)
  | .tuple vs => return .tuple (vs.take n)
  | .range start stop step =>
    return .range start (start + min n (rangeLength start stop step) * step) step
  | .list r => Run.newList ((← Run.listItems r).take n)
  | .map _ => fault .badType "unhashable type: 'slice'"
  | v => noItems v

/-- A computed attribute of an object; none when it says that it does not exist. -/
def getter (ref : ObjectRef) (name : String) : Step (Option Value) := do
  match name, ← Run.objectState ref with
  | "nickname", .person v _ => return some (← firstItems 2 v)
  | "broken", _ => fault .badState "broken property"
  | _, _ => return none

/-- An attribute of an object that is not a method. -/
def attribute? (cls : HostClass) (ref : ObjectRef) (name : String) : Step (Option Value) := do
  if cls.getters.contains name then getter ref name
  else
    match ← Run.objectState ref, name with
    | .counter calls, "calls" => return some (.int calls)
    | .person n _, "name" => return some n
    | .person _ tags, "tags" => return some tags
    | .box attrs, name => return attrs.get? name
    | _, name => return cls.constants.get? name

/-- An attribute of the value that a method is called on. -/
def attributeOf (self : Value) (name : String) : Step Value := do
  match self with
  | .object cls ref =>
    match ← attribute? cls ref name with
    | some a => return a
    | none => fault .noAttribute s!"'{cls.name}' object has no attribute '{name}'"
  | .type cls => fault .noAttribute s!"type object '{cls.name}' has no attribute '{name}'"
  | v => fault .noAttribute s!"'{v.plainTypeName}' object has no attribute '{name}'"

variable {scope : Scope}

/-- Calls a method of a person. -/
def callPerson (self : Value) (method : String) (args : List Value) : Script scope Value := do
  match method, args with
  | "has_tags", _ => return .bool (← isFull (← attributeOf self "tags"))
  | "greet", [other] =>
    let name ← formatted (← attributeOf self "name")
    let other ← formatted other
    return .str s!"{name} greets {other}"
  | "add", [.int n] => return .int (n + 1)
  | "add", [v] =>
    Script.fault .badType s!"unsupported operand type(s) for +: '{v.plainTypeName}' and 'int'"
  | "flag", [v] => return .str (if ← isFull v then "on" else "off")
  | "scale", _ => return .str "scaled"
  | "first_of", [.list r] =>
    match (← Run.listItems r)[0]? with
    | some v => return v
    | none => Script.fault .badIndex "list index out of range"
  | "first_of", [v] => noItems v
  | "echo", [v] | "hinted", [v] => return v
  | "pair", [a] => Run.newList #[a, .int 2]
  | "pair", [a, b] => Run.newList #[a, b]
  | "many", args => return .int (args.length - 1)
  | "options", _ => return .int 0
  | "fail", _ => Script.fault .badValue "boom"
  | "fail_with", [.str "key"] => Script.fault .badKey (Text.quoted "k")
  | "fail_with", [.str "host"] => Script.fail (.access (.stated "custom host failure"))
  | "fail_with", [.str "eval"] =>
    Script.fail (.evaluation ⟨none, .stated "custom evaluation failure", []⟩)
  | "fail_with", [v] => Script.fault .badState (← formatted v)
  | _, _ => return .null

/-- Calls a method of a class on a value. -/
def call (cls : HostClass) (self : Value) (method : String) (args : List Value) :
    Script scope Value := do
  match cls, method, self with
  | .person, _, _ => callPerson self method args
  | .cursor, "hasNext", _ | .aliasedCursor, "has_next", _ => return .bool true
  | .cursor, "has_next", _ => return .bool false
  | _, _, .object _ ref =>
    match ← Run.objectState ref, method, args with
    | .counter calls, "next", _ =>
      Run.setObject ref (.counter (calls + 1))
      return .int (calls + 1)
    | .registry items, "get", [key] => return (lookupKey? items key).getD .null
    | _, _, _ => return .null
  | _, _, _ => return .null

end Object

end Stencil
