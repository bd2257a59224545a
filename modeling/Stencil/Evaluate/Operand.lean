import Stencil.Host.Access
import Stencil.Number.Word
import Stencil.Template.Source

/-!
# Evaluate — operands

Operations on values in expressions: conversion to text, equality, sums, and arithmetic on integers. An
ordinary error of the host becomes an evaluation error at the place that used the value.
-/

namespace Stencil

/-- An ordinary error, as an evaluation error at a place. -/
def Failure.at (place : Place) : Failure → Failure
  | .fault e => .evaluation ⟨some place, .fault e, []⟩
  | .resource e => .evaluation ⟨some place, .resource e, []⟩
  | f => f

/-- An error of using a host value, as an evaluation error of the expression that used it. -/
def Failure.using (place : Place) (source : String) : Failure → Failure
  | .access e => .evaluation ⟨some place, .access source e, []⟩
  | f => f.at place

variable {scope : Scope}

/-- The text of a value, for an expression at a place. -/
def hostText (place : Place) (v : Value) : Script scope String := do
  let host ← Act.host
  Script.rethrow (Failure.at place) (host.textOf v)

/-- A value in an error message, with its type. -/
def shown (place : Place) (v : Value) : Script scope String := do
  match v with
  | .null => return "null"
  | v =>
    let text ← hostText place v
    return s!"{text} (a {v.typeName})"

/-- The integer of an operand, or null. -/
def integerOperand (place : Place) (v : Value) : Script scope (Option Int) := do
  match v with
  | .null => return none
  | .int n => return some n
  | v => Script.failAt place (.notInteger (← shown place v))

/-- A bound of a range, which has to be an integer. -/
def bound (place : Place) (v : Value) : Script scope Int := do
  match ← integerOperand place v with
  | some n => return n
  | none => Script.failAt place .nullBound

/-- Equality in templates: values of one type are compared as values, others by their texts, and null is
equal only to null. -/
def equal (place : Place) (a b : Value) : Script scope Bool := do
  match a, b with
  | .null, .null => return true
  | .null, _ | _, .null => return false
  | a, b =>
    if a.typeName = b.typeName then return a.equals (← Run.allLists) b
    else
      let left ← hostText place a
      let right ← hostText place b
      return left == right

/-- The text of an operand of a concatenation: null is its own source text. -/
def operandText (place : Place) (operand : Expr) (v : Value) : Script scope String :=
  match v with
  | .null => Script.act (.source operand)
  | v => hostText place v

/-- The sum of two integers, or the concatenation of two values of which one is a text. -/
def plus (place : Place) (lhs rhs : Expr) (a b : Value) : Script scope Value := do
  match a, b with
  | .str _, _ | _, .str _ =>
    let left ← operandText place lhs a
    let right ← operandText place rhs b
    return .str (left ++ right)
  | .null, _ | _, .null => return .null
  | .int m, .int n => return .int (Number.wrap (m + n))
  | a, b =>
    let left ← shown place a
    let right ← shown place b
    Script.failAt place (.notAddable left right)

/-- An integer that may be missing as a value. -/
def valueOfInt? : Option Int → Value
  | some n => .int n
  | none => .null

/-- An arithmetic operator or an ordering on two integers. -/
def Operator.apply (op : Operator) (a b : Int) : Value :=
  match op with
  | .less => .bool (a < b)
  | .lessOrEqual => .bool (a ≤ b)
  | .greater => .bool (a > b)
  | .greaterOrEqual => .bool (a ≥ b)
  | .plus => .int (Number.wrap (a + b))
  | .minus => .int (Number.wrap (a - b))
  | .times => .int (Number.wrap (a * b))
  | .divide => valueOfInt? (Number.quotient? a b)
  | .remainder => valueOfInt? (Number.remainder? a b)
  | .or | .and | .equal | .notEqual => .null

/-- An arithmetic operator or an ordering on two operands. Null makes a number null, and cannot be
ordered. -/
def arithmetic (place : Place) (lhs : Expr) (op : Operator) (rhs : Expr) (a b : Option Int) :
    Script scope Value :=
  match a, b with
  | some a, some b => return op.apply a b
  | none, _ =>
    if op.isOrdering then Script.failAt place (.nullOperand true lhs.source op) else return .null
  | _, none =>
    if op.isOrdering then Script.failAt place (.nullOperand false rhs.source op) else return .null

end Stencil
