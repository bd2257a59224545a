import Stencil.Number.FloatText
import Stencil.Script.Basic
import Stencil.Text.Case
import Stencil.Value.Written

/-!
# Host — values as text

Values as text. Null and booleans are words, sequences and sets stand in brackets and maps in braces; a
block is rendered. Some objects have a text of their own, and one class refuses to have any. Inside the
text of an object the host formats values its own way, which is `formatted`.
-/

namespace Stencil

/-- A list of texts in brackets. -/
def bracketed (texts : List String) : String :=
  "[" ++ ", ".intercalate texts ++ "]"

variable {scope : Scope}

/-- A value as the host formats it inside a text, through at most so many objects. -/
def formattedWithin : Nat → Value → Script scope String
  | 0, _ => Script.exhausted
  | n + 1, v => do
    match v with
    | .str s => return s
    | .object cls ref =>
      match cls, ← Run.objectState ref with
      | .person, .person name _ =>
        let name ← formattedWithin n name
        return s!"Person({name})"
      | .unprintable, _ => Script.fault .badValue "cannot print"
      | .counter, _ => return "<hosts.Counter>"
      | _, _ => return cls.name
    | .loop _ => return "\x7b\x7d"
    | .block b => .block b
    | .day _ | .moment _ => return v.formatted
    | v => return v.written (← Run.allLists)

/-- A value as the host formats it inside a text. An object shows at most the objects that are older. -/
def formatted (v : Value) : Script scope String := do
  formattedWithin ((← Run.objectCount) + 1) v

/-- The texts of the items of a list from a position on, after some texts; at most so many are taken. The
list may change while its items are converted. -/
def listTextsFrom (r : ListRef) (texts : Array String) : Nat → Nat → Script scope (List String)
  | 0, _ => Script.exhausted
  | n + 1, position => do
    match (← Run.listItems r)[position]? with
    | some v => listTextsFrom r (texts.push (← Script.text v)) n (position + 1)
    | none => return texts.toList

mutual

/-- The text of a value. Items of lists are converted one level deeper. -/
def textOf : Value → Script scope String
  | .null => return "null"
  | .bool b => return if b then "true" else "false"
  | .tuple vs | .set vs | .keys vs => return bracketed (← textsOf vs)
  | .map entries => return "\x7b" ++ ", ".intercalate (← entryTextsOf entries) ++ "\x7d"
  | .range start stop step =>
    return bracketed ((rangeItems start step (rangeLength start stop step)).map Value.formatted)
  | .list r => do return bracketed (← listTextsFrom r #[] (← Act.fuel) 0)
  | v => formatted v

/-- The texts of several values. -/
def textsOf : List Value → Script scope (List String)
  | [] => return []
  | v :: vs => return (← textOf v) :: (← textsOf vs)

/-- The texts of the entries of a map. -/
def entryTextsOf : List (Value × Value) → Script scope (List String)
  | [] => return []
  | (k, v) :: es => do
    let key ← textOf k
    let value ← textOf v
    return (key ++ "=" ++ value) :: (← entryTextsOf es)

end

/-- The text that the host of an evaluation gives for a value. -/
def HostKind.textOf (host : HostKind) (v : Value) : Script scope String := do
  match host with
  | .standard => Stencil.textOf v
  | .shouting => return Text.upper (← Stencil.textOf v)
  | .failing => Script.fault .badState "no strings here"

/-- The text that a host gives for a value, where no evaluation is under way. -/
def HostKind.text (host : HostKind) (d : Deeper) (v : Value) : Run String :=
  (host.textOf v : Script default String).run d

end Stencil
