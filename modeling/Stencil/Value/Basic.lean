import Stencil.Calendar.Moment
import Stencil.Number.Binary64
import Stencil.Template.Tree

/-!
# Value — the values of templates

The values of templates. Immutable values are given whole; lists, one-shot streams, objects and the
states of loops are mutable and are given by the numbers of their cells. A block is a part of a
template that is written out anew each time it is read; it is given by its number.
-/

namespace Stencil

open Stencil.Number (Binary64)

/-- The cell of a list. -/
structure ListRef where
  index : Nat
  deriving DecidableEq, Repr, Inhabited

/-- The cell of a one-shot stream. -/
structure StreamRef where
  index : Nat
  deriving DecidableEq, Repr, Inhabited

/-- The cell of an object. -/
structure ObjectRef where
  index : Nat
  deriving DecidableEq, Repr, Inhabited

/-- The cell of the state of a loop. -/
structure LoopRef where
  index : Nat
  deriving DecidableEq, Repr, Inhabited

/-- The cell of the variables of one evaluation. -/
structure RootRef where
  index : Nat
  deriving DecidableEq, Repr, Inhabited

/-- The cell of the parameters of one macro call. -/
structure CallRef where
  index : Nat
  deriving DecidableEq, Repr, Inhabited

/-- Where names are looked up: the active macro calls, the innermost first, and the variables of the
evaluation. -/
structure Scope where
  calls : List CallRef
  root : RootRef
  deriving DecidableEq, Repr, Inhabited

/-- The number of a block. `origin` says what made the block. -/
structure BlockRef where
  id : Nat
  origin : String
  deriving DecidableEq, Repr, Inhabited

/-- The classes of host objects. -/
inductive HostClass where
  | counter
  | person
  | registry
  | cursor
  | aliasedCursor
  | box
  | unprintable
  deriving DecidableEq, Repr, Inhabited

/-- A value. `nan` is a float that is not a number, which equals only itself; `keys` is the view of the
keys of a map; `function` and `getter` are members of a class as the class itself gives them. -/
inductive Value where
  | null
  | bool (b : Bool)
  | int (n : Int)
  | float (x : Binary64)
  | nan (id : Nat)
  | str (s : String)
  | bytes (bs : List UInt8)
  | day (d : Day)
  | moment (m : Moment)
  | tuple (items : List Value)
  | set (items : List Value)
  | keys (items : List Value)
  | map (entries : List (Value × Value))
  | range (start stop step : Int)
  | list (ref : ListRef)
  | stream (ref : StreamRef)
  | object (cls : HostClass) (ref : ObjectRef)
  | loop (ref : LoopRef)
  | block (b : BlockRef)
  | type (cls : HostClass)
  | function (cls : HostClass) (name : String)
  | getter (cls : HostClass) (name : String)

instance : Inhabited Value := ⟨.null⟩

/-- The value of a constant. -/
def Literal.value : Literal → Value
  | .null => .null
  | .bool b => .bool b
  | .int n => .int n

/-- The name of a class. -/
def HostClass.name : HostClass → String
  | counter => "Counter"
  | person => "Person"
  | registry => "Registry"
  | cursor => "Cursor"
  | aliasedCursor => "AliasedCursor"
  | box => "Box"
  | unprintable => "Unprintable"

namespace Value

/-- The truth of a value in a condition: all but null and false are true. -/
def isTrue : Value → Bool
  | null => false
  | bool b => b
  | _ => true

/-- The text that a value is, if it is one. -/
def text? : Value → Option String
  | str s => some s
  | _ => none

/-- Whether a value is an integer. A boolean is not. -/
def isInteger : Value → Bool
  | int _ => true
  | _ => false

/-- Whether a value is a sequence that is no text. -/
def isListLike : Value → Bool
  | list _ | tuple _ | range .. => true
  | _ => false

/-- The name of the type of a value without its module. -/
def plainTypeName : Value → String
  | null => "NoneType"
  | bool _ => "bool"
  | int _ => "int"
  | float _ | nan _ => "float"
  | str _ => "str"
  | bytes _ => "bytes"
  | day _ => "date"
  | moment _ => "datetime"
  | tuple _ => "tuple"
  | set _ => "frozenset"
  | keys _ => "dict_keys"
  | map _ => "dict"
  | range .. => "range"
  | list _ => "list"
  | stream _ => "generator"
  | object cls _ => cls.name
  | loop _ => "ForEachState"
  | block _ => "DeferredBlock"
  | type _ => "type"
  | function .. => "function"
  | getter .. => "property"

/-- The full name of the type of a value. -/
def typeName (v : Value) : String :=
  match v with
  | object .. => "hosts." ++ v.plainTypeName
  | loop _ => "vtl.directives." ++ v.plainTypeName
  | block _ => "vtl.nodes." ++ v.plainTypeName
  | day _ | moment _ => "datetime." ++ v.plainTypeName
  | _ => v.plainTypeName

end Value

/-- How many numbers a range holds. -/
def rangeLength (start stop step : Int) : Nat :=
  if step > 0 then ((stop - start + step - 1).fdiv step).toNat
  else if step < 0 then ((start - stop - step - 1).fdiv (-step)).toNat
  else 0

/-- The numbers of a range. -/
def rangeItems (start step : Int) : Nat → List Value
  | 0 => []
  | n + 1 => .int start :: rangeItems (start + step) step n

end Stencil
