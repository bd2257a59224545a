import Stencil.Template.ReadExpr
import Stencil.Template.Spacing
import Stencil.Text.Pieces

/-!
# Template — reading documents

Reading templates: text, comments, verbatim blocks, references and directives. A sequence of nodes ends
at a mark, which has to be one that the enclosing block allows. `Document.read` reads a whole text;
since a text literal holds no quote, the templates inside literals hold no literals in double quotes,
and two levels of reading are enough.
-/

namespace Stencil

open Stencil.Text

/-- A reader of nodes: a scanner, and the macros defined so far. -/
structure Reader where
  scanner : Scanner
  macros : List MacroDef
  deriving Inhabited

/-- A step of reading nodes. -/
abbrev Read := EStateM ParseFailure Reader

/-- A step on the scanner is a step of reading nodes that defines no macro. -/
def Read.scan {α : Type} (x : Scan α) : Read α := fun r =>
  match x r.scanner with
  | .ok a s => .ok a { r with scanner := s }
  | .error e s => .error e { r with scanner := s }

instance : MonadLift Scan Read := ⟨Read.scan⟩

/-- What stands at one place of a sequence: a node, or the mark that ends the sequence. -/
inductive Item where
  | node (n : Node)
  | mark (m : Mark)

/-- Directives that are known not to work here, with or without arguments. -/
def unsupportedDirectives : List String := ["stop"]

namespace Scan

/-- Reads text up to the next dollar or hash sign. `start` has been read. -/
def plainText (start : List Char) : Scan Node := do
  let run ← takeWhile fun c => c != '$' && c != '#'
  return .text (← here) (String.ofList (start ++ run))

/-- Reads a comment to the end of the line, with the line feed. -/
def lineComment : Scan Node := do
  let place ← here
  let _ ← takeWhile (· != '\n')
  skip
  return .comment place

/-- The length of a block comment, given the character before it: up to a hash sign after an asterisk,
and that sign. An open comment ends with the text. -/
def commentLength (last : Char) : List Char → Nat
  | [] => 0
  | c :: cs => if last = '*' && c = '#' then 1 else commentLength c cs + 1

/-- Reads a block comment, from its asterisk on. -/
def blockComment : Scan Node := do
  let place ← here
  skip
  modify fun s => s.advanceBy (commentLength ' ' s.pending)
  return .comment place

/-- The text before the first `]]#`, if there is one. -/
def verbatimText? : List Char → Option (List Char)
  | ']' :: ']' :: '#' :: _ => some []
  | c :: cs => (verbatimText? cs).map (c :: ·)
  | [] => none

/-- Reads a verbatim block, of which the hash sign has been read, or text if it is none. -/
def verbatim : Scan Node := do
  skip
  if (← peek) = some '[' then
    let start ← here
    skip
    match verbatimText? (← get).pending with
    | none => throw (.error ⟨.openVerbatim, start, none⟩)
    | some body =>
      modify (Scanner.advanceBy (body.length + 3))
      return .text (← here) (String.ofList body)
  else plainText ['#', '[']

/-- Reads what a dollar sign in text begins: a reference, or text. -/
def dollar (readInner : ReadInner) (fuel : Nat) : Scan Node := do
  skip
  let quiet := (← peek) = some '!'
  if quiet then skip
  let start := if quiet then ['$', '!'] else ['$']
  if (← peek) = some '{' then
    skip
    if ← sees isLetter then
      let e ← reference readInner fuel quiet
      expect '}'
      return .output e
    else plainText (start ++ ['{'])
  else if ← sees isLetter then
    return .output (← reference readInner fuel quiet)
  else plainText start

/-- Reads the arguments of a macro call and the closing parenthesis. Commas may be left out. -/
def callArguments (readInner : ReadInner) : Nat → Scan (List Expr)
  | 0 => exhausted
  | n + 1 => do
    skipBlanks
    if (← peek) = some ')' then
      skip
      return []
    else
      let e ← primary readInner n false
      if (← peek) = some ',' then skip
      return e :: (← callArguments readInner n)

/-- Reads the parameters of a macro and the closing parenthesis. Commas may be left out. -/
def parameters : Nat → Scan (List String)
  | 0 => exhausted
  | n + 1 => do
    skipBlanks
    if (← peek) = some ')' then
      skip
      return []
    else
      if (← peek) = some ',' then
        skip
        skipBlanks
      if (← peek) ≠ some '$' then fail .parameter
      skip
      let p ← name "Macro parameter name"
      return p :: (← parameters n)

/-- Reads the variable of a loop and the word after it. -/
def loopHead (readInner : ReadInner) (fuel : Nat) : Scan String := do
  expect '('
  skipBlanks
  if (← peek) ≠ some '$' then fail .loopVariable
  match ← dollar readInner fuel with
  | .output (.reference _ x _ []) =>
    skipBlanks
    if (← peek) = some 'i' then
      skip
      if (← peek) = some 'n' then
        skip
        return x
      else fail .loopIn
    else fail .loopIn
  | _ => fail .loopVariableForm

/-- Reads an assignment, from its parenthesis on. -/
def assignment (readInner : ReadInner) (fuel : Nat) : Scan Node := do
  expect '('
  expect '$'
  let x ← name "#set variable"
  expect '='
  let e ← expr readInner fuel
  expect ')'
  return .assign x e

/-- Reads a primary expression in parentheses. -/
def parenthesised (readInner : ReadInner) (fuel : Nat) : Scan Expr := do
  expect '('
  let e ← primary readInner fuel false
  expect ')'
  return e

/-- Reads a break, which may name its scope. -/
def leave (readInner : ReadInner) (fuel : Nat) : Scan Node := do
  skipBlanks
  if (← peek) = some '(' then
    skip
    let scope ← primary readInner fuel false
    expect ')'
    return .leaveScope (← here) scope
  else return .leave (← here)

/-- Reads the name of a directive, with or without braces. -/
def directiveName : Scan String := do
  if (← peek) = some '{' then
    skip
    let d ← name "Directive inside #\x7b...\x7d"
    expect '}'
    return d
  else name "Directive"

/-- Ends a sequence: the mark has to be one of those that the enclosing block allows. -/
def close (allowed : List Mark) (inside : Enclosure) (found : Mark) : Scan Unit := do
  if allowed.contains found then pure () else fail (.misplaced found inside)

end Scan

namespace Read

open Scan

/-- Fails for want of fuel. -/
def exhausted {α : Type} : Read α :=
  throw .exhausted

/-- Adds a macro to those defined so far. -/
def define (m : MacroDef) : Read Unit :=
  modify fun r => { r with macros := addMacro r.macros m }

mutual

/-- Reads nodes up to a mark. `done` holds the nodes of the sequence so far, the last one first. -/
def nodes (readInner : ReadInner) : Nat → List Node → Read (List Node × Mark)
  | 0, _ => exhausted
  | n + 1, done => do
    match ← item readInner n with
    | .mark m => return (done.reverse, m)
    | .node x => nodes readInner n (addNode done x)

/-- Reads the nodes of a block up to a mark that the block allows. -/
def block (readInner : ReadInner) :
    Nat → List Mark → Enclosure → Read (List Node × Mark)
  | 0, _, _ => exhausted
  | n + 1, allowed, inside => do
    skipNewline
    let (body, m) ← nodes readInner n []
    close allowed inside m
    return (body, m)

/-- Reads one node or mark. -/
def item (readInner : ReadInner) : Nat → Read Item
  | 0 => exhausted
  | n + 1 => do
    match ← peek with
    | none => return .mark .endOfText
    | some '#' =>
      skip
      match ← peek with
      | some '#' => return .node (← lineComment)
      | some '*' => return .node (← blockComment)
      | some '[' => return .node (← verbatim)
      | some '{' => directive readInner n
      | some '@' =>
        skip
        if ← sees isLetter then
          let x ← name "#@"
          return .node (← macroCall readInner n true x)
        else return .node (← plainText ['#', '@'])
      | some c => if isLetter c then directive readInner n else return .node (← plainText ['#'])
      | none => return .node (← plainText ['#'])
    | some '$' => return .node (← dollar readInner n)
    | some c =>
      skip
      return .node (← plainText [c])

/-- Reads a directive from its name on. One line feed after a directive belongs to it. -/
def directive (readInner : ReadInner) : Nat → Read Item
  | 0 => exhausted
  | n + 1 => do
    match ← directiveName with
    | "end" => skipNewline; return .mark .endBlock
    | "elseif" => skipNewline; return .mark .elseIf
    | "else" => skipNewline; return .mark .otherwise
    | "if" => return .node (← choice readInner n "#if")
    | "foreach" => return .node (← loop readInner n)
    | "break" => return .node (← leave readInner n)
    | "set" =>
      let x ← assignment readInner n
      skipNewline
      return .node x
    | "define" =>
      let x ← definition readInner n
      skipNewline
      return .node x
    | "parse" =>
      let place ← here
      let e ← parenthesised readInner n
      skipNewline
      return .node (.parse place e)
    | "macro" => return .node (← macroDefinition readInner n)
    | "evaluate" =>
      let place ← here
      let e ← parenthesised readInner n
      skipNewline
      return .node (.evaluate place e)
    | d =>
      let x ← macroCall readInner n false d
      skipNewline
      return .node x

/-- Reads a choice from its parenthesis on. `opener` is the directive that began it. -/
def choice (readInner : ReadInner) : Nat → String → Read Node
  | 0, _ => exhausted
  | n + 1, opener => do
    let place ← here
    expect '('
    let condition ← expr readInner n
    expect ')'
    let (yes, m) ← block readInner n [.otherwise, .elseIf, .endBlock] (.directive opener place.line)
    match m with
    | .elseIf => return .choose place condition yes (← choice readInner n "#elseif")
    | .otherwise =>
      let other ← here
      let (no, m) ← nodes readInner n []
      close [.endBlock] (.directive "#else" other.line) m
      return .choose place condition yes (.sequence other no)
    | _ => return .choose place condition yes (.sequence (← here) [])

/-- Reads a loop from its parenthesis on. -/
def loop (readInner : ReadInner) : Nat → Read Node
  | 0 => exhausted
  | n + 1 => do
    let place ← here
    let x ← loopHead readInner n
    let collection ← expr readInner n
    expect ')'
    let (body, _) ← block readInner n [.endBlock] (.directive "#foreach" place.line)
    return .foreach place x collection body

/-- Reads the definition of a variable by a block, from its parenthesis on. -/
def definition (readInner : ReadInner) : Nat → Read Node
  | 0 => exhausted
  | n + 1 => do
    let place ← here
    expect '('
    expect '$'
    let x ← name "#define variable"
    expect ')'
    let (body, _) ← block readInner n [.endBlock] (.directive "#define" place.line)
    return .define place x body

/-- Reads the definition of a macro from its parenthesis on, and leaves an empty sequence in its place. -/
def macroDefinition (readInner : ReadInner) : Nat → Read Node
  | 0 => exhausted
  | n + 1 => do
    let place ← here
    expect '('
    skipBlanks
    let x ← name "Macro name"
    let params ← parameters n
    let (body, _) ← block readInner n [.endBlock] (.directive "#macro" place.line)
    define ⟨place, x, params, dropInitialBlank body⟩
    return .sequence (← here) []

/-- Reads a macro call after its name. Without a parenthesis it is text, unless the name begins like
the end of a block or is that of a directive that is known not to work. -/
def macroCall (readInner : ReadInner) : Nat → Bool → String → Read Node
  | 0, _, _ => exhausted
  | n + 1, hasBody, x => do
    let place ← here
    let blanks ← Scan.takeWhile isBlank
    if (← peek) = some '(' then
      skip
      let args ← callArguments readInner n
      if hasBody then
        let (body, _) ← block readInner n [.endBlock] (.body x place.line)
        return .callWith (← here) x args place.line body
      else return .call (← here) x args
    else if unsupportedDirectives.contains x then fail (.unsupported x)
    else if (dropPart? ['e', 'n', 'd'] x.toList).isSome then fail (.unknownEnd x)
    else
      let start := if hasBody then ['#', '@'] else ['#']
      plainText (start ++ x.toList ++ blanks)

end

/-- Reads nodes to the end of the text. -/
def document (readInner : ReadInner) (fuel : Nat) : Read (List Node) := do
  let (body, m) ← nodes readInner fuel []
  close [.endOfText] .document m
  return body

end Read

namespace Document

/-- Fuel that reading a text never uses up: each character costs a few calls. -/
def fuelFor (s : Scanner) : Nat :=
  8 * s.pending.length + 16

/-- Reads a text as a template, given a reader for the templates inside its text literals. -/
def readWith (readInner : ReadInner) (resource : Option String) (text : String) :
    Except ParseFailure Document :=
  let s := Scanner.ofText text resource
  match Read.document readInner (fuelFor s) ⟨s, []⟩ with
  | .ok body r => .ok ⟨r.scanner.place, body, r.macros⟩
  | .error e _ => .error e

/-- Reads the template inside a text literal. The macros defined there are not kept. -/
def readInside (resource text : String) : Except ParseFailure (List Node) :=
  (readWith (fun _ _ => .error .exhausted) (some resource) text).map (·.nodes)

/-- Reads a text as a template. -/
def read (resource : Option String) (text : String) : Except ParseFailure Document :=
  readWith readInside resource text

end Document

/-- Reads an expression at the beginning of a text, and gives the scanner after it. -/
def Expr.read (resource : Option String) (text : String) : Except ParseFailure (Expr × Scanner) :=
  let s := Scanner.ofText text resource
  match Scan.expr Document.readInside (Document.fuelFor s) s with
  | .ok e s => .ok (e, s)
  | .error e _ => .error e

/-- Reads a primary expression at the beginning of a text, and gives the scanner after it. -/
def Expr.readPrimary (nullAllowed : Bool) (resource : Option String) (text : String) :
    Except ParseFailure (Expr × Scanner) :=
  let s := Scanner.ofText text resource
  match Scan.primary Document.readInside (Document.fuelFor s) nullAllowed s with
  | .ok e s => .ok (e, s)
  | .error e _ => .error e

end Stencil
