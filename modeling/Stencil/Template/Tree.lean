/-!
# Template — the tree

The tree of a template: expressions, references with their chains of suffixes, and the nodes of text
and directives. Every leaf and every block remembers the place it was read from; a binary expression
and an assignment stand where their first expression stands.
-/

namespace Stencil

/-- A line of a resource; text that has no resource has no name here. -/
structure Place where
  resource : Option String
  line : Nat
  deriving DecidableEq, Repr, Inhabited

/-- The place in words, as error messages give it. -/
def Place.text (p : Place) : String :=
  match p.resource with
  | none => s!"on line {p.line}"
  | some name => s!"on line {p.line} of {name}"

/-- The binary operators. -/
inductive Operator where
  | or | and
  | equal | notEqual
  | less | lessOrEqual | greater | greaterOrEqual
  | plus | minus
  | times | divide | remainder
  deriving DecidableEq, Repr, Inhabited

namespace Operator

/-- How an operator is written. -/
def symbol : Operator → String
  | or => "||" | and => "&&"
  | equal => "==" | notEqual => "!="
  | less => "<" | lessOrEqual => "<=" | greater => ">" | greaterOrEqual => ">="
  | plus => "+" | minus => "-"
  | times => "*" | divide => "/" | remainder => "%"

/-- How tightly an operator binds; operators of one precedence associate to the left. -/
def precedence : Operator → Nat
  | or => 1
  | and => 2
  | equal | notEqual => 3
  | less | lessOrEqual | greater | greaterOrEqual => 4
  | plus | minus => 5
  | times | divide | remainder => 6

/-- The operators that compare numbers by order. -/
def isOrdering : Operator → Bool
  | less | lessOrEqual | greater | greaterOrEqual => true
  | _ => false

theorem precedence_pos (op : Operator) : 0 < op.precedence := by
  cases op <;> decide

end Operator

/-- A constant of the template language. -/
inductive Literal where
  | null
  | bool (b : Bool)
  | int (n : Int)
  deriving DecidableEq, Repr, Inhabited

/-- The quotes of a text literal. Between double quotes stands a template of its own. -/
inductive Quote where
  | single
  | double
  deriving DecidableEq, Repr, Inhabited

/-- The quote as a character. -/
def Quote.char : Quote → Char
  | single => '\''
  | double => '"'

mutual

/-- An expression. A reference is a variable with a chain of suffixes; a quiet one may be null when it
is written out. -/
inductive Expr where
  | literal (place : Place) (value : Literal)
  | binary (lhs : Expr) (op : Operator) (rhs : Expr)
  | negation (place : Place) (operand : Expr)
  | text (place : Place) (quote : Quote) (nodes : List Node)
  | list (place : Place) (elements : List Expr)
  | range (place : Place) (first last : Expr)
  | reference (place : Place) (name : String) (quiet : Bool) (suffixes : List Suffix)

/-- One step of a reference: a member, a method with arguments, or an index. -/
inductive Suffix where
  | member (name : String)
  | method (name : String) (args : List Expr)
  | index (key : Expr)

/-- A node of template text. `choose` takes its second branch from `#elseif`, `#else` or nothing;
`leave` is a break, of the nearest enclosing loop or template, or of the loop that a scope names. -/
inductive Node where
  | text (place : Place) (text : String)
  | comment (place : Place)
  | sequence (place : Place) (nodes : List Node)
  | output (value : Expr)
  | assign (var : String) (value : Expr)
  | choose (place : Place) (condition : Expr) (yes : List Node) (no : Node)
  | foreach (place : Place) (var : String) (collection : Expr) (body : List Node)
  | leave (place : Place)
  | leaveScope (place : Place) (scope : Expr)
  | define (place : Place) (var : String) (body : List Node)
  | call (place : Place) (name : String) (args : List Expr)
  | callWith (place : Place) (name : String) (args : List Expr) (bodyLine : Nat) (body : List Node)
  | parse (place : Place) (name : Expr)
  | evaluate (place : Place) (source : Expr)

end

instance : Inhabited Expr := ⟨.literal default .null⟩
instance : Inhabited Suffix := ⟨.member ""⟩
instance : Inhabited Node := ⟨.comment default⟩

/-- Where an expression stands. -/
def Expr.place : Expr → Place
  | .literal p _ | .negation p _ | .text p _ _ | .list p _ | .range p _ _ | .reference p _ _ _ => p
  | .binary lhs _ _ => lhs.place

/-- Whether an expression may be null when it is written out. -/
def Expr.isQuiet : Expr → Bool
  | .reference _ _ quiet _ => quiet
  | _ => false

/-- Where a node stands. -/
def Node.place : Node → Place
  | .text p _ | .comment p | .sequence p _ | .choose p _ _ _ | .foreach p _ _ _ | .leave p
  | .leaveScope p _ | .define p _ _ | .call p _ _ | .callWith p _ _ _ _ | .parse p _ | .evaluate p _ => p
  | .output e | .assign _ e => e.place

/-- A macro: its parameters are bound to the expressions of a call, not to their values. -/
structure MacroDef where
  place : Place
  name : String
  params : List String
  body : List Node
  deriving Inhabited

/-- A text as it was read: its nodes, and the macros defined anywhere in it, in order of definition.
The place is that of the end of the text. -/
structure Document where
  place : Place
  nodes : List Node
  macros : List MacroDef
  deriving Inhabited

/-- The macro of a name in a list of macros. -/
def findMacro? (macros : List MacroDef) (name : String) : Option MacroDef :=
  macros.find? (·.name == name)

/-- Adds a macro unless its name is taken. -/
def addMacro (macros : List MacroDef) (m : MacroDef) : List MacroDef :=
  match findMacro? macros m.name with
  | some _ => macros
  | none => macros ++ [m]

end Stencil
