import Stencil.Template.Tree

/-!
# Template — errors in the text

What can be wrong with the text of a template. `ParseCause` names the causes, `ParseCause.text` words
them, and a `ParseError` adds the place and the text that follows it.
-/

namespace Stencil

/-- A mark that ends a sequence of nodes. -/
inductive Mark where
  | endOfText
  | endBlock
  | elseIf
  | otherwise
  deriving DecidableEq, Repr, Inhabited

/-- The mark as messages name it. -/
def Mark.text : Mark → String
  | endOfText => "end of file"
  | endBlock => "#end"
  | elseIf => "#elseif"
  | otherwise => "#else"

/-- What a sequence of nodes belongs to. -/
inductive Enclosure where
  | document
  | directive (opener : String) (line : Nat)
  | body (name : String) (line : Nat)
  deriving DecidableEq, Repr, Inhabited

/-- The enclosure as messages name it. -/
def Enclosure.text : Enclosure → String
  | document => "outside any construct"
  | directive opener line => s!"parsing {opener} starting on line {line}"
  | body name line => s!"#@{name} starting on line {line}"

/-- Why a text is not a template. -/
inductive ParseCause where
  | expected (c : Char)
  | nameStart (what : String)
  | operand
  | integer (text : String)
  | bareName (nullAllowed : Bool) (name : String)
  | openText
  | escape
  | oneDot
  | rangeEnd
  | listEnd
  | indexEnd
  | wordOperator (word found : String)
  | halfOperator (op : Operator) (found : Char)
  | misplaced (mark : Mark) (inside : Enclosure)
  | openVerbatim
  | loopVariable
  | loopVariableForm
  | loopIn
  | parameter
  | unsupported (directive : String)
  | unknownEnd (directive : String)
  | stated (text : String)
  deriving DecidableEq, Repr, Inhabited

/-- The cause in words. -/
def ParseCause.text : ParseCause → String
  | expected c => "Expected " ++ String.singleton c
  | nameStart what => s!"{what} should start with an ASCII letter"
  | operand => "Expected a reference or a literal"
  | integer text => s!"Invalid integer: {text}"
  | bareName nullAllowed name =>
    let orNull := if nullAllowed then " or null" else ""
    s!"Identifier must be preceded by $ or be true or false{orNull}: {name}"
  | openText => "Unterminated string constant"
  | escape => "Escapes in string constants are not currently supported"
  | oneDot => "Expected two dots (..) not just one"
  | rangeEnd => "Expected ] at end of range literal"
  | listEnd => "Expected ] at end of list literal"
  | indexEnd => "Expected ]"
  | wordOperator word found => s!"Expected '{word}' but was '{found}'"
  | halfOperator op found => s!"Expected {op.symbol}, not just {found}"
  | misplaced mark inside => s!"Found {mark.text} {inside.text}"
  | openVerbatim => "Unterminated #[[ - did not see matching ]]#"
  | loopVariable => "Expected variable beginning with '$' for #foreach"
  | loopVariableForm => "Expected simple variable for #foreach"
  | loopIn => "Expected 'in' for #foreach"
  | parameter => "Macro parameters should look like $name"
  | unsupported directive => s!"#{directive} is not currently supported"
  | unknownEnd directive => s!"Unrecognized directive #{directive}"
  | stated text => text

/-- An error in the text of a template: the cause, the place, and the text that follows the place, if
it is given. -/
structure ParseError where
  cause : ParseCause
  place : Place
  following : Option String
  deriving DecidableEq, Repr, Inhabited

/-- The whole message of a parse error. -/
def ParseError.message (e : ParseError) : String :=
  let found := match e.following with
    | none => ""
    | some text => s!", at text starting: {text}"
  s!"{e.cause.text}, {e.place.text}{found}"

/-- Why reading stopped without a result: an error in the text, or no fuel left, which a text never
uses up. -/
inductive ParseFailure where
  | error (e : ParseError)
  | exhausted
  deriving DecidableEq, Repr, Inhabited

end Stencil
