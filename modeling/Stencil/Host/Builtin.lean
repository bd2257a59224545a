import Stencil.Host.Signature
import Stencil.Run.Loop
import Stencil.Text.Case
import Stencil.Text.Pieces

/-!
# Host — built-in values

Members of the built-in values: methods of texts, lists, tuples, maps and integers, and attributes of
integers, ranges and loops. Each method checks its arguments itself, one after another, and refuses the
first that is of a wrong type.
-/

namespace Stencil

open Step (fault)

namespace Builtin

-- The powers here are those of the core library, whatever else is imported.
attribute [local instance (high)] instPowNat

/-- The methods of a value by name, with their signatures. A method without a signature accepts every
call and counts its arguments itself. -/
def methods : Value → List (String × Option Signature)
  | .str _ =>
    [("upper", some (.untyped 0 0)), ("lower", some (.untyped 0 0)), ("strip", some (.untyped 0 1)),
      ("isdigit", some (.untyped 0 0)), ("replace", some (.untyped 2 1)), ("split", some (.untyped 0 2)),
      ("join", some (.untyped 1 0)), ("startswith", none), ("endswith", none)]
  | .list _ =>
    [("append", some (.untyped 1 0)), ("pop", some (.untyped 0 1)), ("count", some (.untyped 1 0)),
      ("copy", some (.untyped 0 0)), ("extend", some (.untyped 1 0)), ("reverse", some (.untyped 0 0)),
      ("clear", some (.untyped 0 0))]
  | .tuple _ => [("count", some (.untyped 1 0))]
  | .map _ => [("get", some (.untyped 1 1)), ("keys", none)]
  | .int _ | .bool _ => [("bit_length", some (.untyped 0 0))]
  | _ => []

/-- An attribute of a value that is not a method. -/
def attribute? (v : Value) (name : String) : Step (Option Value) := do
  match v, name with
  | .int n, "real" | .int n, "numerator" => return some (.int n)
  | .bool b, "real" | .bool b, "numerator" => return some (.int (boolInt b))
  | .range start _ _, "start" => return some (.int start)
  | .range _ stop _, "stop" => return some (.int stop)
  | .range _ _ step, "step" => return some (.int step)
  | .loop r, "index" => return some (.int (← Run.loopState r).index)
  | .loop r, "count" => return some (.int ((← Run.loopState r).index + 1))
  | .loop r, "first" => return some (.bool ((← Run.loopState r).index == 0))
  | .loop r, "has_next" => return some (.bool (← Run.lookAhead r))
  | .loop r, "last" => return some (.bool !(← Run.lookAhead r))
  | _, _ => return none

/-- The integer that an argument stands for. -/
def index (v : Value) : Step Int :=
  match v with
  | .int n => return n
  | .bool b => return boolInt b
  | v => fault .badType s!"'{v.plainTypeName}' object cannot be interpreted as an integer"

/-- The integer that an argument stands for, which has to fit into a word of 64 bits. -/
def smallIndex (v : Value) : Step Int := do
  let n ← index v
  if -2 ^ (63 : Nat) ≤ n ∧ n < 2 ^ (63 : Nat) then return n
  else fault .tooLarge "Python int too large to convert to C ssize_t"

/-- A count of occurrences as a limit: a negative count is no limit. -/
def limit (v : Value) : Step (Option Nat) := do
  let n ← smallIndex v
  return if n < 0 then none else some n.toNat

/-- The name that messages give the type of an argument. -/
def argumentType : Value → String
  | .null => "None"
  | v => v.plainTypeName

/-- An argument that has to be a text. -/
def textArgument (method : String) (position : Nat) (v : Value) : Step String :=
  match v with
  | .str s => return s
  | v => fault .badType s!"{method}() argument {position} must be str, not {argumentType v}"

/-- The items that a method takes from an argument. A text gives its characters, a map its keys. -/
def itemSource? : Value → Option Source
  | .str s => some (.items (s.toList.map fun c => .str (String.singleton c)))
  | .bytes bs => some (.items (bs.map fun b => .int b.toNat))
  | .map entries => some (.items (entries.map (·.1)))
  | v => Run.source? v

/-- Joins items, which have to be texts. -/
def joinTexts (sep : String) (items : List Value) : Step String :=
  match items.zipIdx.find? fun (v, _) => v.text?.isNone with
  | some (v, position) =>
    fault .badType s!"sequence item {position}: expected str instance, {v.plainTypeName} found"
  | none => return sep.intercalate (items.filterMap Value.text?)

/-- A position in a text from an argument, counted from the end if negative. -/
def slicePosition (size fallback : Nat) (v : Value) : Step Nat := do
  match v with
  | .null => return fallback
  | .int _ | .bool _ =>
    let n ← index v
    return (if n < 0 then n + size else n).toNat
  | _ => fault .badType "slice indices must be integers or None or have an __index__ method"

/-- Whether a part of a text begins or ends with one of several texts. -/
def affixTest (name : String) (test : String → String → Bool) (s : String) (args : List Value) :
    Step Value := do
  let arity (problem : String) : Step Value := fault .badType s!"{name}() takes {problem}"
  match args with
  | [] => arity "at least 1 argument (0 given)"
  | part :: bounds =>
    if bounds.length > 2 then arity s!"at most 3 arguments ({bounds.length + 1} given)"
    else
      let size := s.length
      let start ← slicePosition size 0 (bounds.getD 0 .null)
      let stop := min size (← slicePosition size size (bounds.getD 1 .null))
      let inner := String.ofList ((s.toList.take stop).drop start)
      let fits (p : String) : Bool := start ≤ stop && test p inner
      match part with
      | .str p => return .bool (fits p)
      | .tuple ps =>
        let rec go : List Value → Step Value
          | [] => return .bool false
          | .str p :: ps => if fits p then return .bool true else go ps
          | v :: _ =>
            fault .badType s!"tuple for {name} must only contain str, not {v.plainTypeName}"
        go ps
      | v => fault .badType s!"{name} first arg must be str or a tuple of str, not {v.plainTypeName}"

/-- Calls a method of a text. -/
def callText (fuel : Nat) (s : String) (name : String) (args : List Value) : Step Value := do
  match name, args with
  | "upper", _ => return .str (Text.upper s)
  | "lower", _ => return .str (Text.lower s)
  | "isdigit", _ => return .bool (Text.isDigits s)
  | "strip", [] | "strip", [.null] => return .str (Text.strip s)
  | "strip", [.str cs] =>
    return .str (String.ofList (Text.trimBoth (cs.toList.contains ·) s.toList))
  | "strip", _ => fault .badType "strip arg must be None or str"
  | "replace", old :: new :: count => do
    let old ← textArgument "replace" 1 old
    let new ← textArgument "replace" 2 new
    let most ← limit (count.headD (.int (-1)))
    return .str (Text.replace s old new most)
  | "split", args => do
    let most ← limit (args.getD 1 (.int (-1)))
    let pieces ← match args.headD .null with
      | .null => pure (Text.splitWords s most)
      | .str "" => fault .badValue "empty separator"
      | .str sep => pure (Text.splitBy sep s most)
      | v => fault .badType s!"must be str or None, not {v.plainTypeName}"
    Run.newList (pieces.map Value.str).toArray
  | "join", [v] => do
    match itemSource? v with
    | none => fault .badType "can only join an iterable"
    | some source =>
      let items ← Run.collect #[] fuel source
      return .str (← joinTexts s items.toList)
  | "startswith", args => affixTest name Text.beginsWith s args
  | "endswith", args => affixTest name Text.endsIn s args
  | _, _ => return .null

/-- Calls a method of a list. -/
def callList (fuel : Nat) (r : ListRef) (name : String) (args : List Value) : Step Value := do
  match name, args with
  | "append", [v] => do
    Run.pushItem r v
    return .null
  | "pop", args => do
    let n ← smallIndex (args.headD (.int (-1)))
    let size := (← Run.listItems r).size
    if size = 0 then fault .badIndex "pop from empty list"
    else
      let n := if n < 0 then n + size else n
      if n < 0 || n ≥ size then fault .badIndex "pop index out of range"
      else
        let item := (← Run.listItems r).getD n.toNat .null
        Run.changeList r fun items => items.eraseIdxIfInBounds n.toNat
        return item
  | "count", [v] => do
    let lists := ← Run.allLists
    return .int ((← Run.listItems r).countP fun item => item.equals lists v)
  | "copy", _ => do Run.newList (← Run.listItems r)
  | "extend", [.list other] => do
    let more ← Run.listItems other
    Run.changeList r fun items => items ++ more
    return .null
  | "extend", [v] => do
    match itemSource? v with
    | none => fault .badType s!"'{v.plainTypeName}' object is not iterable"
    | some source =>
      Run.forSource (Run.pushItem r) fuel source
      return .null
  | "reverse", _ => do
    Run.changeList r Array.reverse
    return .null
  | "clear", _ => do
    Run.changeList r fun _ => #[]
    return .null
  | _, _ => return .null

/-- The value of a key in a map, which has to be a possible key. -/
def lookup (entries : List (Value × Value)) (key fallback : Value) : Step Value :=
  match key.unhashable? with
  | some type => fault .badType s!"unhashable type: '{type}'"
  | none => return (lookupKey? entries key).getD fallback

/-- The number of binary digits of an integer without its sign. -/
def bitLength (n : Int) : Int :=
  if n = 0 then 0 else n.natAbs.log2 + 1

/-- Calls a method of a built-in value. -/
def call (fuel : Nat) (v : Value) (name : String) (args : List Value) : Step Value := do
  match v, name, args with
  | .str s, _, _ => callText fuel s name args
  | .list r, _, _ => callList fuel r name args
  | .tuple items, "count", [v] =>
    let lists := ← Run.allLists
    return .int (items.countP fun item => item.equals lists v)
  | .map entries, "get", key :: rest => lookup entries key (rest.headD .null)
  | .map entries, "keys", [] => return .keys (entries.map (·.1))
  | .map _, "keys", args => fault .badType s!"dict.keys() takes no arguments ({args.length} given)"
  | .int n, "bit_length", _ => return .int (bitLength n)
  | .bool b, "bit_length", _ => return .int (bitLength (boolInt b))
  | _, _, _ => return .null

end Builtin

end Stencil
