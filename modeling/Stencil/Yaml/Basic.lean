import Stencil.Number.Binary64
import Stencil.Yaml.Problem

/-!
# YAML — values

Values of YAML documents, and what can be a key of a mapping. A list that is a key is a tuple.
-/

namespace Stencil

open Stencil.Number (Binary64)

/-- The value of a YAML document. `merge` and `default` are words that have a meaning as a key only: the
first names other mappings, the second is its own text. -/
inductive Yaml where
  | null
  | bool (b : Bool)
  | int (n : Int)
  | float (x : Binary64)
  | nan
  | day (d : Day)
  | moment (m : Moment)
  | str (s : String)
  | bytes (bs : List UInt8)
  | merge
  | default (text : String)
  | list (items : List Yaml)
  | tuple (items : List Yaml)
  | set (items : List Yaml)
  | map (ordered : Bool) (entries : List (Yaml × Yaml))

namespace Yaml

instance : Inhabited Yaml := ⟨.null⟩

/-- The name of the type of a value. -/
def typeName : Yaml → String
  | null => "NoneType"
  | bool _ => "bool"
  | int _ => "int"
  | float _ | nan => "float"
  | day _ => "date"
  | moment _ => "datetime"
  | str _ | merge | default _ => "str"
  | bytes _ => "bytes"
  | list _ => "list"
  | tuple _ => "tuple"
  | set _ => "set"
  | map ordered _ => if ordered then "ordereddict" else "dict"

mutual

/-- Whether two values are equal as keys. -/
def same : Yaml → Yaml → Bool
  | .null, .null | .nan, .nan => true
  | .bool a, .bool b => a == b
  | .bool a, .int n | .int n, .bool a => n == if a then 1 else 0
  | .bool a, .float x | .float x, .bool a => x.isInt (if a then 1 else 0)
  | .int m, .int n => m == n
  | .int m, .float x | .float x, .int m => x.isInt m
  | .float x, .float y => x.same y
  | .day d, .day e => d == e
  | .moment m, .moment n => m.same n
  | .str s, .str t => s == t
  | .bytes s, .bytes t => s == t
  | .tuple xs, .tuple ys => sameItems xs ys
  | _, _ => false

/-- Whether two tuples are equal as keys. -/
def sameItems : List Yaml → List Yaml → Bool
  | [], [] => true
  | x :: xs, y :: ys => same x y && sameItems xs ys
  | _, _ => false

end

/-- Whether a document counts as empty. -/
def isEmpty : Yaml → Bool
  | null | bool false | int 0 | list [] | tuple [] | set [] | map _ [] => true
  | float x => x.isZero
  | str s => s.isEmpty
  | bytes bs => bs.isEmpty
  | _ => false

/-- A value that stands where a value stands. -/
def asValue : Yaml → YamlResult Yaml
  | merge | default _ => .error .malformed
  | v => .ok v

/-- A value that stands where a key stands. -/
def asKey : Yaml → YamlResult Yaml
  | default text => .ok (.str text)
  | list items => .ok (.tuple items)
  | merge | set _ | map .. => .error .malformed
  | v => .ok v

mutual

/-- The type of the first part of a key that may change, which no part of a key may. -/
def changeable? : Yaml → Option String
  | .tuple items => changeableItem? items
  | .list _ => some "list"
  | .set _ => some "set"
  | .map ordered _ => some (if ordered then "ordereddict" else "dict")
  | _ => none

/-- The type of the first part of several values that may change. -/
def changeableItem? : List Yaml → Option String
  | [] => none
  | v :: vs => (changeable? v).or (changeableItem? vs)

end

/-- Refuses a key of which a part may change. -/
def checkKey (key : Yaml) : YamlResult Unit :=
  match key.changeable? with
  | some typeName => .error (.unusableKey typeName)
  | none => .ok ()

/-- Puts an entry in front of the entries of a mapping. An entry with the same key keeps its place, and
is refused if keys have to be distinct. -/
def insert (distinct : Bool) (entries : List (Yaml × Yaml)) (e : Yaml × Yaml) :
    YamlResult (List (Yaml × Yaml)) := do
  e.1.checkKey
  if entries.any fun f => f.1.same e.1 then
    if distinct then throw .malformed
    else return entries.map fun f => if f.1.same e.1 then (f.1, e.2) else f
  else return e :: entries

end Yaml

end Stencil
