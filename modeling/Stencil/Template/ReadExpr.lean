import Stencil.Template.Scanner
import Stencil.Number.Word

/-!
# Template — reading expressions

Reading expressions: literals, references with their chains of suffixes, and binary operators by
precedence climbing. A text in double quotes is a template of its own, which a parameter reads. Each
function calls the others with less fuel than it has.
-/

namespace Stencil

open Stencil.Text

/-- Reads the inside of a text literal as a template, given the name it goes by in messages. -/
abbrev ReadInner := String → String → Except ParseFailure (List Node)

namespace Scan

/-- Runs a reader that has a text of its own. -/
def inner {α : Type} (x : Except ParseFailure α) : Scan α :=
  match x with
  | .ok a => pure a
  | .error e => throw e

/-- Reads the digits of an integer; the sign has been read. Leading zeros count as digits. -/
def integer (negative : Bool) : Scan Expr := do
  let digits ← takeWhile isDigit
  let sign := if negative then "-" else ""
  let n : Int := digits.foldl (fun n c => n * 10 + (c.toNat - '0'.toNat)) 0
  let n := if negative then -n else n
  if digits.isEmpty || Number.longestInteger < digits.length || !Number.isWord n then
    fail (.integer (sign ++ String.ofList digits))
  else
    return .literal (← here) (.int n)

/-- Reads the characters up to a quote and the quote itself. -/
def quoted (quote : Quote) : Scan String := do
  let text ← takeWhile fun c => c != quote.char && c != '\\'
  match ← peek with
  | none => fail .openText
  | some c =>
    if c = '\\' then fail .escape
    else
      skip
      return String.ofList text

/-- Reads a text literal, from its quote on. -/
def text (readInner : ReadInner) (quote : Quote) : Scan Expr := do
  skip
  let s ← quoted quote
  let place ← here
  match quote with
  | .single => return .text place quote [.text place s]
  | .double => return .text place quote (← inner (readInner s!"string {place.text}" s))

/-- Reads an operator of two characters, of which the first has been read. -/
def secondChar (first second : Char) (op : Operator) : Scan (Option Operator) := do
  if (← peek) = some second then
    skip
    return some op
  else fail (.halfOperator op first)

/-- Reads the rest of an ordering, of which the first character has been read. -/
def orEqual (strict weak : Operator) : Scan (Option Operator) := do
  if (← peek) = some '=' then
    skip
    return some weak
  else return some strict

/-- Reads an operator that is written as a word. -/
def wordOperator (word : String) (op : Operator) : Scan (Option Operator) := do
  let found ← name ""
  if found = word then return some op else fail (.wordOperator word found)

/-- Reads the operator that follows an operand, if there is one. -/
def operator : Scan (Option Operator) := do
  skipBlanks
  match ← peek with
  | some 'a' => wordOperator "and" .and
  | some 'o' => wordOperator "or" .or
  | some '|' => skip; secondChar '|' '|' .or
  | some '&' => skip; secondChar '&' '&' .and
  | some '=' => skip; secondChar '=' '=' .equal
  | some '!' => skip; secondChar '!' '=' .notEqual
  | some '<' => skip; orEqual .less .lessOrEqual
  | some '>' => skip; orEqual .greater .greaterOrEqual
  | some '+' => skip; return some .plus
  | some '-' => skip; return some .minus
  | some '*' => skip; return some .times
  | some '/' => skip; return some .divide
  | some '%' => skip; return some .remainder
  | _ => return none

mutual

/-- Reads an expression. -/
def expr (readInner : ReadInner) : Nat → Scan Expr
  | 0 => exhausted
  | n + 1 => do
    let lhs ← unary readInner n
    let next ← operator
    let (e, _) ← climb readInner n lhs next 1
    return e

/-- Goes on from a left operand and the operator after it while operators bind at least as tightly as
`least`. Gives the operator that it stops at. -/
def climb (readInner : ReadInner) : Nat → Expr → Option Operator → Nat → Scan (Expr × Option Operator)
  | 0, _, _, _ => exhausted
  | _ + 1, lhs, none, _ => return (lhs, none)
  | n + 1, lhs, some op, least => do
    if op.precedence < least then
      return (lhs, some op)
    else
      let rhs ← unary readInner n
      let next ← operator
      let (rhs, next) ← climbRight readInner n rhs next op.precedence
      climb readInner n (.binary lhs op rhs) next least

/-- Extends a right operand while operators bind more tightly than the one before it. -/
def climbRight (readInner : ReadInner) :
    Nat → Expr → Option Operator → Nat → Scan (Expr × Option Operator)
  | 0, _, _, _ => exhausted
  | _ + 1, rhs, none, _ => return (rhs, none)
  | n + 1, rhs, some op, bound => do
    if op.precedence ≤ bound then
      return (rhs, some op)
    else
      let (rhs, next) ← climb readInner n rhs (some op) op.precedence
      climbRight readInner n rhs next bound

/-- Reads an operand: an expression in parentheses, a negation, or a primary expression. -/
def unary (readInner : ReadInner) : Nat → Scan Expr
  | 0 => exhausted
  | n + 1 => do
    skipBlanks
    match ← peek with
    | some '(' =>
      nextNonBlank
      let e ← expr readInner n
      expect ')'
      skipBlanks
      return e
    | some '!' =>
      skip
      let place ← here
      let e ← unary readInner n
      skipBlanks
      return .negation place e
    | _ => primary readInner n false

/-- Reads a literal or a reference, and the blanks around it. `null` is a literal only where it is
allowed, which is among the arguments of a method. -/
def primary (readInner : ReadInner) : Nat → Bool → Scan Expr
  | 0, _ => exhausted
  | n + 1, nullAllowed => do
    skipBlanks
    let e ← match ← peek with
      | some '$' => do
        skip
        required readInner n
      | some '"' => text readInner .double
      | some '\'' => text readInner .single
      | some '-' => do
        skip
        integer true
      | some '[' => listOrRange readInner n
      | some c =>
        if isDigit c then integer false
        else if isLetter c then word readInner n nullAllowed
        else fail .operand
      | none => fail .operand
    skipBlanks
    return e

/-- Reads a literal that is a word, or a negation that begins with one. -/
def word (readInner : ReadInner) : Nat → Bool → Scan Expr
  | 0, _ => exhausted
  | n + 1, nullAllowed => do
    let w ← name "Identifier without $"
    if w = "true" then return .literal (← here) (.bool true)
    else if w = "false" then return .literal (← here) (.bool false)
    else if w = "not" then
      let place ← here
      return .negation place (← unary readInner n)
    else if w = "null" && nullAllowed then return .literal (← here) .null
    else fail (.bareName nullAllowed w)

/-- Reads a list or a range, from its bracket on. -/
def listOrRange (readInner : ReadInner) : Nat → Scan Expr
  | 0 => exhausted
  | n + 1 => do
    nextNonBlank
    if (← peek) = some ']' then
      skip
      return .list (← here) []
    else
      let first ← primary readInner n false
      if (← peek) = some '.' then
        skip
        if (← peek) ≠ some '.' then fail .oneDot
        nextNonBlank
        let last ← primary readInner n false
        if (← peek) ≠ some ']' then fail .rangeEnd
        nextNonBlank
        return .range (← here) first last
      else
        let others ← elements readInner n
        if (← peek) ≠ some ']' then fail .listEnd
        skip
        return .list (← here) (first :: others)

/-- Reads the elements of a list after the first, each with the comma before it. -/
def elements (readInner : ReadInner) : Nat → Scan (List Expr)
  | 0 => exhausted
  | n + 1 => do
    if (← peek) = some ',' then
      skip
      let e ← primary readInner n false
      return e :: (← elements readInner n)
    else return []

/-- Reads a reference inside an expression, after its dollar. A mark for quietness has no effect. -/
def required (readInner : ReadInner) : Nat → Scan Expr
  | 0 => exhausted
  | n + 1 => do
    if (← peek) = some '!' then skip
    if (← peek) = some '{' then
      skip
      let e ← reference readInner n false
      expect '}'
      return e
    else reference readInner n false

/-- Reads a reference from its name on. -/
def reference (readInner : ReadInner) : Nat → Bool → Scan Expr
  | 0, _ => exhausted
  | n + 1, quiet => do
    let x ← name "Reference"
    let place ← here
    return .reference place x quiet (← suffixes readInner n)

/-- Reads the longest chain of suffixes. A period that no letter follows is put back. -/
def suffixes (readInner : ReadInner) : Nat → Scan (List Suffix)
  | 0 => exhausted
  | n + 1 => do
    match ← peek with
    | some '.' =>
      skip
      if ← sees isLetter then
        let m ← name "Member"
        let s ← if (← peek) = some '(' then (.method m ·) <$> arguments readInner n else pure (.member m)
        return s :: (← suffixes readInner n)
      else
        putBack '.'
        return []
    | some '[' =>
      skip
      let key ← primary readInner n false
      if (← peek) ≠ some ']' then fail .indexEnd
      skip
      return .index key :: (← suffixes readInner n)
    | _ => return []

/-- Reads the arguments of a method, from the parenthesis on. -/
def arguments (readInner : ReadInner) : Nat → Scan (List Expr)
  | 0 => exhausted
  | n + 1 => do
    nextNonBlank
    if (← peek) = some ')' then
      skip
      return []
    else
      let first ← primary readInner n true
      let others ← moreArguments readInner n
      if (← peek) ≠ some ')' then fail (.expected ')')
      skip
      return first :: others

/-- Reads the arguments after the first, each with the comma before it. -/
def moreArguments (readInner : ReadInner) : Nat → Scan (List Expr)
  | 0 => exhausted
  | n + 1 => do
    if (← peek) = some ',' then
      nextNonBlank
      let e ← primary readInner n true
      return e :: (← moreArguments readInner n)
    else return []

end

end Scan

end Stencil
