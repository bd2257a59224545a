import Stencil.Value.Heap
import Stencil.Value.Basic

/-!
# Value — equality

Equality of values. Numbers and booleans are equal when their numeric values are; containers of one
kind are equal when their parts are, maps and sets in any order; objects and blocks are equal only to
themselves. Lists are compared through their cells.
-/

namespace Stencil

open Stencil.Number (Binary64)

/-- The number that a boolean counts as. -/
def boolInt (b : Bool) : Int :=
  if b then 1 else 0

/-- Equality of ranges: they hold the same numbers. -/
def sameRange (a b c a' b' c' : Int) : Bool :=
  let n := rangeLength a b c
  n == rangeLength a' b' c' && (n == 0 || (a == a' && (n == 1 || c == c')))

namespace Value

mutual

/-- Equality of two values, given equality of lists. -/
def equalsWith (sameList : ListRef → ListRef → Bool) : Value → Value → Bool
  | null, null => true
  | bool a, bool b => a == b
  | bool a, int n => boolInt a == n
  | bool a, float x => x.isInt (boolInt a)
  | int m, bool b => m == boolInt b
  | int m, int n => m == n
  | int m, float x => x.isInt m
  | float x, bool b => x.isInt (boolInt b)
  | float x, int n => x.isInt n
  | float x, float y => x.same y
  | nan i, nan j => i == j
  | str s, str t => s == t
  | bytes s, bytes t => s == t
  | day d, day e => d == e
  | moment m, moment n => m.same n
  | tuple xs, tuple ys => itemsEqual sameList xs ys
  | set xs, set ys | set xs, keys ys | keys xs, set ys | keys xs, keys ys =>
    xs.length == ys.length && itemsIn sameList xs ys
  | map xs, map ys => xs.length == ys.length && entriesIn sameList xs ys
  | range a b c, range a' b' c' => sameRange a b c a' b' c'
  | list r, list r' => r == r' || sameList r r'
  | stream r, stream r' => r == r'
  | object _ r, object _ r' => r == r'
  | loop r, loop r' => r == r'
  | block b, block b' => b.id == b'.id
  | type c, type c' => c == c'
  | function c f, function c' f' => c == c' && f == f'
  | getter c f, getter c' f' => c == c' && f == f'
  | _, _ => false

/-- Equality of sequences, item by item. -/
def itemsEqual (sameList : ListRef → ListRef → Bool) : List Value → List Value → Bool
  | [], [] => true
  | x :: xs, y :: ys => equalsWith sameList x y && itemsEqual sameList xs ys
  | _, _ => false

/-- Whether each item is equal to one of some others. -/
def itemsIn (sameList : ListRef → ListRef → Bool) : List Value → List Value → Bool
  | [], _ => true
  | x :: xs, ys => ys.any (fun y => equalsWith sameList x y) && itemsIn sameList xs ys

/-- Whether each entry is equal to one of some others. -/
def entriesIn (sameList : ListRef → ListRef → Bool) : List (Value × Value) → List (Value × Value) → Bool
  | [], _ => true
  | (k, v) :: xs, ys =>
    ys.any (fun e => equalsWith sameList k e.1 && equalsWith sameList v e.2) &&
      entriesIn sameList xs ys

end

/-- Equality of values whose lists nest at most so many levels deep. -/
def equalsWithin (lists : Heap (Array Value)) : Nat → Value → Value → Bool
  | 0 => equalsWith fun _ _ => false
  | n + 1 => equalsWith fun r r' =>
    let xs := lists.get r.index
    let ys := lists.get r'.index
    xs.size == ys.size && (xs.zip ys).all fun (x, y) => equalsWithin lists n x y

/-- Equality of values. Lists without cycles nest at most as deep as there are lists. -/
def equals (lists : Heap (Array Value)) (a b : Value) : Bool :=
  equalsWithin lists lists.size a b

/-- Equality of keys, among which there are no lists. -/
def sameKey (a b : Value) : Bool :=
  equalsWith (fun _ _ => false) a b

mutual

/-- The type of the part that keeps a value from being a key, if there is one. -/
def unhashable? : Value → Option String
  | list _ => some "list"
  | map _ => some "dict"
  | keys _ => some "dict_keys"
  | tuple items => unhashableItem? items
  | _ => none

/-- The type of the first item that keeps a tuple from being a key. -/
def unhashableItem? : List Value → Option String
  | [] => none
  | v :: vs => (unhashable? v).or (unhashableItem? vs)

end

end Value

/-- The value of a key in a map. -/
def lookupKey? (entries : List (Value × Value)) (key : Value) : Option Value :=
  (entries.find? fun e => e.1.sameKey key).map (·.2)

/-- Adds an entry to a map. A key that is there keeps its place and gets the new value. -/
def insertKey (entries : List (Value × Value)) (key value : Value) : List (Value × Value) :=
  match entries with
  | [] => [(key, value)]
  | e :: es => if e.1.sameKey key then (e.1, value) :: es else e :: insertKey es key value

/-- The map of some pairs, in order of first insertion. -/
def mapOfPairs (pairs : List (Value × Value)) : Value :=
  .map (pairs.foldl (fun es e => insertKey es e.1 e.2) [])

end Stencil
