import Stencil.Template.Record

/-!
# Template — expressions as text

Expressions as text. Parentheses stand around a left or right operand that binds less tightly than its
operator, and around a negated binary expression, and nowhere else. What has no source text of its own,
inside a text literal, appears as a record.
-/

namespace Stencil

/-- A constant as text. -/
def Literal.source : Literal → String
  | .null => "null"
  | .bool b => if b then "true" else "false"
  | .int n => toString n

/-- Whether an operand of an operator is written in parentheses. -/
def needsParens (op : Operator) : Expr → Bool
  | .binary _ inner _ => inner.precedence < op.precedence
  | _ => false

/-- Whether an expression is a binary one. -/
def Expr.isBinary : Expr → Bool
  | .binary .. => true
  | _ => false

/-- A text, in parentheses if need be. -/
def inParens (parens : Bool) (s : String) : String :=
  if parens then "(" ++ s ++ ")" else s

mutual

/-- The source text of an expression. -/
def Expr.source : Expr → String
  | .literal _ v => v.source
  | .binary lhs op rhs =>
    inParens (needsParens op lhs) lhs.source ++ " " ++ op.symbol ++ " " ++
      inParens (needsParens op rhs) rhs.source
  | .negation _ e => "!" ++ inParens e.isBinary e.source
  | .text _ quote nodes =>
    String.singleton quote.char ++ nodesSource nodes ++ String.singleton quote.char
  | .list _ elements => "[" ++ ", ".intercalate (sources elements) ++ "]"
  | .range _ first last => "[" ++ first.source ++ ".." ++ last.source ++ "]"
  | .reference _ name quiet suffixes =>
    (if quiet then "$!" else "$") ++ name ++ suffixesSource suffixes

/-- The source texts of several expressions. -/
def sources : List Expr → List String
  | [] => []
  | e :: es => e.source :: sources es

/-- The source text of a suffix. -/
def Suffix.source : Suffix → String
  | .member name => "." ++ name
  | .method name args => "." ++ name ++ "(" ++ ", ".intercalate (sources args) ++ ")"
  | .index key => "[" ++ key.source ++ "]"

/-- The source text of a chain of suffixes. -/
def suffixesSource : List Suffix → String
  | [] => ""
  | s :: ss => s.source ++ suffixesSource ss

/-- The source text of a node inside a text literal. Directives and comments have none, and appear as
records. -/
def Node.source : Node → String
  | .text _ s => s
  | .output e => e.source
  | n => n.record

/-- The source text of the inside of a text literal. -/
def nodesSource : List Node → String
  | [] => ""
  | n :: ns => n.source ++ nodesSource ns

end

/-- The source text of a reference with some of its suffixes. -/
def referenceSource (name : String) (quiet : Bool) (suffixes : List Suffix) : String :=
  (if quiet then "$!" else "$") ++ name ++ suffixesSource suffixes

mutual

/-- Whether the source text shows all of an expression: no text literal in it holds a directive, a
macro definition or a comment. -/
def Expr.isShown : Expr → Bool
  | .literal _ _ => true
  | .binary lhs _ rhs => lhs.isShown && rhs.isShown
  | .negation _ e => e.isShown
  | .text _ _ nodes => areShown nodes
  | .list _ elements => exprsShown elements
  | .range _ first last => first.isShown && last.isShown
  | .reference _ _ _ suffixes => suffixesShown suffixes

/-- Whether the source texts show all of several expressions. -/
def exprsShown : List Expr → Bool
  | [] => true
  | e :: es => e.isShown && exprsShown es

/-- Whether the source text shows all of a suffix. -/
def Suffix.isShown : Suffix → Bool
  | .member _ => true
  | .method _ args => exprsShown args
  | .index key => key.isShown

/-- Whether the source text shows all of a chain of suffixes. -/
def suffixesShown : List Suffix → Bool
  | [] => true
  | s :: ss => s.isShown && suffixesShown ss

/-- Whether the source text shows all of a node. -/
def Node.isShown : Node → Bool
  | .text _ _ => true
  | .output e => e.isShown
  | _ => false

/-- Whether the source text shows all of several nodes. -/
def areShown : List Node → Bool
  | [] => true
  | n :: ns => n.isShown && areShown ns

end

end Stencil
