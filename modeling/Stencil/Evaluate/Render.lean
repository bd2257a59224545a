import Stencil.Evaluate.Directive

/-!
# Evaluate — expressions and nodes

Evaluation of expressions and rendering of nodes, by recursion on the tree. Where evaluation leaves the
tree it goes on one level deeper; `evalWithin`, `renderWithin` and `textWithin` tie the levels together,
with fuel for their number.
-/

namespace Stencil

mutual

/-- The value of an expression. In a boolean position an undefined variable is false. -/
def evalExpr (scope : Scope) : Expr → Bool → Script scope Value
  | .literal _ v, _ => return v.value
  | .binary lhs op rhs, lenient => do
    match op with
    | .or =>
      let a ← evalExpr scope lhs lenient
      if a.isTrue then return .bool true
      else return .bool (← evalExpr scope rhs lenient).isTrue
    | .and =>
      let a ← evalExpr scope lhs lenient
      if a.isTrue then return .bool (← evalExpr scope rhs lenient).isTrue
      else return .bool false
    | .equal =>
      let a ← evalExpr scope lhs false
      let b ← evalExpr scope rhs false
      return .bool (← equal lhs.place a b)
    | .notEqual =>
      let a ← evalExpr scope lhs false
      let b ← evalExpr scope rhs false
      return .bool !(← equal lhs.place a b)
    | .plus =>
      let a ← evalExpr scope lhs false
      let b ← evalExpr scope rhs false
      plus lhs.place lhs rhs a b
    | op =>
      let a ← integerOperand lhs.place (← evalExpr scope lhs false)
      let b ← integerOperand rhs.place (← evalExpr scope rhs false)
      arithmetic lhs.place lhs op rhs a b
  | .negation _ e, lenient => do
    return .bool !(← evalExpr scope e lenient).isTrue
  | .text _ _ nodes, _ => do
    return .str (← Script.capture (renderNodes scope nodes))
  | .list _ es, _ => do
    return .tuple (← evalExprs scope es)
  | .range _ first last, _ => do
    let a ← bound first.place (← evalExpr scope first false)
    let b ← bound last.place (← evalExpr scope last false)
    return if a ≤ b then .range a (b + 1) 1 else .range a (b - 1) (-1)
  | .reference place x quiet suffixes, lenient => do
    if ← Act.defined x then
      let v ← Script.read x
      evalSuffixes scope place (referenceSource x quiet) [] suffixes v
    else if lenient && suffixes.isEmpty then return .bool false
    else Script.failAt place (.undefined x)

/-- The values of several expressions. -/
def evalExprs (scope : Scope) : List Expr → Script scope (List Value)
  | [] => return []
  | e :: es => do
    let v ← evalExpr scope e false
    return v :: (← evalExprs scope es)

/-- Goes through a chain of suffixes from a value. `before` holds the suffixes done, and `source` gives
the source text of the reference with some of its suffixes. -/
def evalSuffixes (scope : Scope) (place : Place) (source : List Suffix → String)
    (before : List Suffix) : List Suffix → Value → Script scope Value
  | [], v => return v
  | suffix :: rest, v => do
    let after := before ++ [suffix]
    match v with
    | .null => Script.failAt place (.nullBase (source after) (source before))
    | .block b => Script.failAt place (.blockBase (source after) (source before) b.origin)
    | v =>
      let next ← evalSuffix scope place (fun _ => source after) suffix v
      evalSuffixes scope place source after rest next

/-- Takes one suffix of a value. -/
def evalSuffix (scope : Scope) (place : Place) (source : Unit → String) :
    Suffix → Value → Script scope Value
  | .member name, v =>
    Script.rethrow (fun f => f.using place (source ())) (Host.propertyOf v name)
  | .method name args, v => do
    let args ← evalExprs scope args
    Script.rethrow (fun f => f.using place (source ())) (Host.callMethodOf v name args)
  | .index key, v => do
    let key ← evalExpr scope key false
    Script.rethrow (fun f => f.using place (source ())) (Host.indexOf v key)

/-- Renders a node. -/
def renderNode (scope : Scope) : Node → Script scope Unit
  | .text _ s => Act.write s
  | .comment _ => return ()
  | .sequence _ nodes => renderNodes scope nodes
  | .output e => do
    match ← evalExpr scope e false with
    | .null => if e.isQuiet then return () else Script.failAt e.place (.nullOutput e.source)
    | v => Act.write (← hostText e.place v)
  | .assign x e => do
    let v ← evalExpr scope e false
    Script.assign x v
  | .choose _ condition yes no => do
    if (← evalExpr scope condition true).isTrue then renderNodes scope yes
    else renderNode scope no
  | .foreach place x collection body => do
    match ← evalExpr scope collection false with
    | .null => return ()
    | v =>
      match Run.source? v with
      | some source => Script.loop x source (renderNodes scope body)
      | none => Script.failAt place (.notIterable (← hostText place v))
  | .leave place => Script.leave place false
  | .leaveScope place e => do
    match ← evalExpr scope e false with
    | .loop _ => Script.leave place true
    | _ => Script.failAt place (.notScope e.source)
  | .define _ x body => do
    let b ← Act.define body "#define"
    Script.assign x (.block b.ref)
  | .call place name args => callMacro place name args none
  | .callWith place name args _ body => callMacro place name args (some body)
  | .parse place e => do parseDirective place (← evalExpr scope e false)
  | .evaluate place e => do evaluateDirective place (← evalExpr scope e false)

/-- Renders nodes one after another. -/
def renderNodes (scope : Scope) : List Node → Script scope Unit
  | [] => return ()
  | n :: ns => do
    renderNode scope n
    renderNodes scope ns

end

mutual

/-- Evaluates an expression with so many levels of fuel. -/
def evalWithin : Nat → Scope → Expr → Run Value
  | 0, _, _ => Run.exhausted
  | n + 1, scope, e =>
    (evalExpr scope e false).run ⟨n, evalWithin n, renderWithin n, textWithin n⟩

/-- Renders nodes with so many levels of fuel. -/
def renderWithin : Nat → Scope → List Node → Run Unit
  | 0, _, _ => Run.exhausted
  | n + 1, scope, nodes =>
    (renderNodes scope nodes).run ⟨n, evalWithin n, renderWithin n, textWithin n⟩

/-- Converts a value to text with so many levels of fuel. -/
def textWithin : Nat → Value → Run String
  | 0, _ => Run.exhausted
  | n + 1, v => (textOf v : Script default String).run ⟨n, evalWithin n, renderWithin n, textWithin n⟩

end

/-- The evaluator with so many levels of fuel. -/
def Deeper.within (n : Nat) : Deeper :=
  ⟨n, evalWithin n, renderWithin n, textWithin n⟩

-- The power here is that of the core library, whatever else is imported.
attribute [local instance (high)] instPowNat

/-- Fuel for evaluations that end. -/
def defaultFuel : Nat := 2 ^ (40 : Nat)

/-- The evaluator with the fuel for evaluations that end. -/
def Deeper.full : Deeper :=
  Deeper.within defaultFuel

/-- The value of an expression in a scope. -/
def Expr.evaluate (e : Expr) (scope : Scope) (lenient : Bool) : Run Value :=
  (evalExpr scope e lenient).run Deeper.full

namespace Template

/-- Renders a template in a scope. Its macros become known where their names are free; a break is not
stopped. -/
def renderIn (t : Template) (scope : Scope) : Run String := do
  modify fun s => s.addMacros scope.root t.macros
  Run.capture ((renderNodes scope t.document.nodes).run Deeper.full)

/-- Evaluates a template with variables. A break that no loop or template stops ends the evaluation,
unless it is meant for a loop. -/
def evaluateWithin (fuel : Nat) (t : Template) (vars : Bindings Value) (host : HostKind) :
    Run String := do
  let scope ← modifyGet fun s => s.enterRoot ⟨vars, t.macros, host, t.loader⟩
  Run.capture (Run.endBreaks (renderWithin fuel scope t.document.nodes))

/-- Evaluates a template with variables. -/
def evaluate (t : Template) (vars : Bindings Value) (host : HostKind) : Run String :=
  t.evaluateWithin defaultFuel vars host

end Template

end Stencil
