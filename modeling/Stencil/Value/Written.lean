import Stencil.Number.FloatText
import Stencil.Text.Quoted
import Stencil.Value.Basic
import Stencil.Value.Heap

/-!
# Value — the host's notation

Values as they are written in the host's own notation, which is how configuration keys are shown and how
objects show what they hold. A list that is met again inside itself is written as three dots.
-/

namespace Stencil

open Stencil.Text (byteText quoted)

mutual

/-- A value in the notation of the host, given the notation of lists. -/
def Value.writtenWith (list : ListRef → String) : Value → String
  | .null => "None"
  | .bool b => if b then "True" else "False"
  | .int n => toString n
  | .float x => x.text
  | .nan _ => "nan"
  | .str s => quoted s
  | .bytes bs => byteText bs
  | .day d => d.written
  | .moment m => m.written
  | .tuple [v] => "(" ++ v.writtenWith list ++ ",)"
  | .tuple vs => "(" ++ ", ".intercalate (writtenItems list vs) ++ ")"
  | .set [] => "frozenset()"
  | .set vs => "frozenset(\x7b" ++ ", ".intercalate (writtenItems list vs) ++ "\x7d)"
  | .keys vs => "dict_keys([" ++ ", ".intercalate (writtenItems list vs) ++ "])"
  | .map entries => "\x7b" ++ ", ".intercalate (writtenEntries list entries) ++ "\x7d"
  | .range start stop step =>
    let third := if step = 1 then "" else s!", {step}"
    s!"range({start}, {stop}{third})"
  | .list r => list r
  | .type cls => s!"<class 'hosts.{cls.name}'>"
  | v => s!"<{v.typeName}>"

/-- The items of a value in the notation of the host. -/
def writtenItems (list : ListRef → String) : List Value → List String
  | [] => []
  | v :: vs => v.writtenWith list :: writtenItems list vs

/-- The entries of a map in the notation of the host. -/
def writtenEntries (list : ListRef → String) : List (Value × Value) → List String
  | [] => []
  | (k, v) :: es => (k.writtenWith list ++ ": " ++ v.writtenWith list) :: writtenEntries list es

end

/-- The dots that stand for a list inside itself. -/
def listAgain : String := "[...]"

/-- A value in the notation of the host, inside some lists and with so many levels of lists. -/
def Value.writtenWithin (lists : Heap (Array Value)) : Nat → List ListRef → Value → String
  | 0, _ => Value.writtenWith fun _ => listAgain
  | n + 1, around => Value.writtenWith fun r =>
    if around.contains r then listAgain
    else
      let items := (lists.get r.index).toList.map (writtenWithin lists n (r :: around))
      "[" ++ ", ".intercalate items ++ "]"

/-- A value in the notation of the host. Lists nest at most as deep as there are lists, before one is met
again. -/
def Value.written (lists : Heap (Array Value)) : Value → String :=
  Value.writtenWithin lists lists.size []

/-- A value that holds no lists as the host formats it inside a text: texts stand for themselves, and so
do the texts of days and moments. -/
def Value.formatted : Value → String
  | .str s => s
  | .day d => d.text
  | .moment m => m.text
  | v => v.writtenWith fun _ => listAgain

end Stencil
