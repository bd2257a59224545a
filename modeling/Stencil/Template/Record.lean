import Stencil.Template.Tree
import Stencil.Text.Quoted

/-!
# Template — nodes as records

Expressions and nodes as records: the kind of the node, and its place and fields by name, to any depth.
A directive or a comment has no source text of its own, and appears in that of an expression so.
-/

namespace Stencil

/-- A truth value as a field of a record. -/
def boolField (b : Bool) : String :=
  if b then "True" else "False"

/-- A constant as a field of a record. -/
def Literal.field : Literal → String
  | .null => "None"
  | .bool b => boolField b
  | .int n => toString n

/-- The name of an operator. -/
def Operator.label : Operator → String
  | .or => "OR" | .and => "AND"
  | .equal => "EQUAL" | .notEqual => "NOT_EQUAL"
  | .less => "LESS" | .lessOrEqual => "LESS_OR_EQUAL"
  | .greater => "GREATER" | .greaterOrEqual => "GREATER_OR_EQUAL"
  | .plus => "PLUS" | .minus => "MINUS"
  | .times => "TIMES" | .divide => "DIVIDE" | .remainder => "REMAINDER"

/-- An operator as a field of a record. -/
def Operator.field (op : Operator) : String :=
  "<Operator." ++ op.label ++ ": (" ++ Text.quoted op.symbol ++ ", " ++ toString op.precedence ++ ")>"

/-- Several records as one field. -/
def rowField : List String → String
  | [r] => "(" ++ r ++ ",)"
  | rs => "(" ++ ", ".intercalate rs ++ ")"

/-- The record of a node of a kind at a place, with the fields that its kind has. -/
def Place.record (p : Place) (kind : String) (fields : List (String × String)) : String :=
  let places := [("resource_name", (p.resource.map Text.quoted).getD "None"), ("line_number", toString p.line)]
  kind ++ "(" ++ ", ".intercalate ((places ++ fields).map fun f => f.1 ++ "=" ++ f.2) ++ ")"

/-- The record of a sequence of nodes, given their records. -/
def Place.sequenceRecord (p : Place) (nodes : List String) : String :=
  p.record "ConsNode" [("nodes", rowField nodes)]

mutual

/-- An expression as a record. -/
def Expr.record : Expr → String
  | .literal p v => p.record "ConstantNode" [("value", v.field)]
  | .binary lhs op rhs =>
    lhs.place.record "BinaryExpressionNode" [("lhs", lhs.record), ("op", op.field), ("rhs", rhs.record)]
  | .negation p e => p.record "NotExpressionNode" [("expr", e.record)]
  | .text p quote nodes =>
    p.record "StringLiteralNode"
      [("quote", Text.quoted (String.singleton quote.char)), ("nodes", rowField (nodeRecords nodes))]
  | .list p elements => p.record "ListLiteralNode" [("elements", rowField (exprRecords elements))]
  | .range p first last => p.record "RangeLiteralNode" [("first", first.record), ("last", last.record)]
  | .reference p name quiet suffixes =>
    suffixesRecord p quiet
      (p.record "PlainReferenceNode" [("id", Text.quoted name), ("silent", boolField quiet)]) suffixes

/-- Expressions as records. -/
def exprRecords : List Expr → List String
  | [] => []
  | e :: es => e.record :: exprRecords es

/-- A suffix as the record of the reference up to it. `lhs` is the record of what is before it. -/
def Suffix.record (p : Place) (quiet : Bool) (lhs : String) : Suffix → String
  | .member name =>
    p.record "MemberReferenceNode"
      [("lhs", lhs), ("id", Text.quoted name), ("silent", boolField quiet)]
  | .method name args =>
    p.record "MethodReferenceNode"
      [("lhs", lhs), ("id", Text.quoted name), ("args", rowField (exprRecords args)),
        ("silent", boolField quiet)]
  | .index key =>
    p.record "IndexReferenceNode" [("lhs", lhs), ("index", key.record), ("silent", boolField quiet)]

/-- A reference as a record, given the record of what is before the suffixes. -/
def suffixesRecord (p : Place) (quiet : Bool) (lhs : String) : List Suffix → String
  | [] => lhs
  | s :: ss => suffixesRecord p quiet (s.record p quiet lhs) ss

/-- A node as a record. -/
def Node.record : Node → String
  | .text p s => p.record "TextNode" [("text", Text.quoted s)]
  | .comment p => p.record "CommentNode" []
  | .sequence p nodes => p.sequenceRecord (nodeRecords nodes)
  | .output e => e.record
  | .assign x e => e.place.record "SetNode" [("var", Text.quoted x), ("expression", e.record)]
  | .choose p condition yes no =>
    p.record "IfNode"
      [("condition", condition.record), ("true_part", p.sequenceRecord (nodeRecords yes)),
        ("false_part", no.record)]
  | .foreach p x collection body =>
    p.record "ForEachNode"
      [("var", Text.quoted x), ("collection", collection.record),
        ("body", p.sequenceRecord (nodeRecords body))]
  | .leave p => p.record "BreakNode" [("scope", "None")]
  | .leaveScope p scope => p.record "BreakNode" [("scope", scope.record)]
  | .define p x body =>
    p.record "DefineNode" [("var", Text.quoted x), ("body", p.sequenceRecord (nodeRecords body))]
  | .call p name args =>
    p.record "MacroCallNode"
      [("name", Text.quoted name), ("arguments", rowField (exprRecords args)), ("body_content", "None")]
  | .callWith p name args bodyLine body =>
    p.record "MacroCallNode"
      [("name", Text.quoted name), ("arguments", rowField (exprRecords args)),
        ("body_content", Place.sequenceRecord ⟨p.resource, bodyLine⟩ (nodeRecords body))]
  | .parse p name => p.record "ParseNode" [("expression", name.record)]
  | .evaluate p source => p.record "EvaluateNode" [("expression", source.record)]

/-- Nodes as records. -/
def nodeRecords : List Node → List String
  | [] => []
  | n :: ns => n.record :: nodeRecords ns

end

end Stencil
