import Stencil.Proofs.Reaches

/-!
# The parts of an expression

Evaluating an expression evaluates its parts, in order, until one fails or an operand of a condition decides.
`Part` says from which store each direct part is evaluated, and whether in a boolean position, where an undefined
variable is false: only the operands of `||`, `&&` and negations may be. `Evaluates` goes from part to part, and
what it leads to is begun in evaluating the whole: `Evaluates.reaches`.
-/

namespace Stencil

/-- The operators whose operands are in a boolean position where their result is. -/
def Operator.isLogical : Operator → Bool
  | or | and => true
  | _ => false

/-- Whether the left operand decides what such an operator gives, so that the right one is not evaluated. -/
def Operator.decides : Operator → Bool → Bool
  | or, a => a
  | and, a => !a
  | _, _ => false

/-- The operators that take integers and null only. -/
def Operator.takesIntegers : Operator → Bool
  | or | and | equal | notEqual | plus => false
  | _ => true

/-- Whether a value is neither null nor a block, so that suffixes may be taken of it. -/
def Value.HasSuffixes : Value → Prop
  | null | block _ => False
  | _ => True

/-- In evaluating an expression from a store, leniently or not, a direct part of it is evaluated, leniently or
not, from another store. -/
inductive Part (n : Nat) (scope : Scope) : Expr → Bool → Store → Expr → Bool → Store → Prop where
  | left {lhs op rhs lenient s} : Part n scope (.binary lhs op rhs) lenient s lhs (op.isLogical && lenient) s
  | undecided {lhs op rhs lenient s s' a} : op.isLogical = true →
      (evalExpr scope lhs lenient).run (Deeper.within n) s = .ok a s' → op.decides a.isTrue = false →
      Part n scope (.binary lhs op rhs) lenient s rhs lenient s'
  | right {lhs op rhs lenient s s' a} : op.isLogical = false → op.takesIntegers = false →
      (evalExpr scope lhs false).run (Deeper.within n) s = .ok a s' →
      Part n scope (.binary lhs op rhs) lenient s rhs false s'
  | number {lhs op rhs lenient s s' s'' a i} : op.takesIntegers = true →
      (evalExpr scope lhs false).run (Deeper.within n) s = .ok a s' →
      (integerOperand lhs.place a : Script scope _).run (Deeper.within n) s' = .ok i s'' →
      Part n scope (.binary lhs op rhs) lenient s rhs false s''
  | negated {place e lenient s} : Part n scope (.negation place e) lenient s e lenient s
  | element {place es e fs lenient s s' vs} :
      (evalExprs scope es).run (Deeper.within n) s = .ok vs s' →
      Part n scope (.list place (es ++ e :: fs)) lenient s e false s'
  | first {place first last lenient s} : Part n scope (.range place first last) lenient s first false s
  | last {place first last lenient s s' s'' a i} :
      (evalExpr scope first false).run (Deeper.within n) s = .ok a s' →
      (bound first.place a : Script scope Int).run (Deeper.within n) s' = .ok i s'' →
      Part n scope (.range place first last) lenient s last false s''
  | argument {place x quiet before name es e fs after lenient s s' s'' v vs} :
      (evalExpr scope (.reference place x quiet before) false).run (Deeper.within n) s = .ok v s' →
      v.HasSuffixes → (evalExprs scope es).run (Deeper.within n) s' = .ok vs s'' →
      Part n scope (.reference place x quiet (before ++ .method name (es ++ e :: fs) :: after)) lenient s e
        false s''
  | key {place x quiet before e after lenient s s' v} :
      (evalExpr scope (.reference place x quiet before) false).run (Deeper.within n) s = .ok v s' →
      v.HasSuffixes → Part n scope (.reference place x quiet (before ++ .index e :: after)) lenient s e false s'
  /-- What is written out between double quotes. -/
  | written {place quote before e after lenient s s'} :
      (renderNodes scope before).run (Deeper.within n) { s with written := "" } = .ok () s' →
      Part n scope (.text place quote (before ++ .output e :: after)) lenient s e false s'

/-- In evaluating an expression from a store, leniently or not, a part of it is evaluated, leniently or not,
from another store. -/
inductive Evaluates (n : Nat) (scope : Scope) (e : Expr) (lenient : Bool) (s : Store) :
    Expr → Bool → Store → Prop where
  | whole : Evaluates n scope e lenient s e lenient s
  | part {f f' lenient' lenient'' s' s''} : Evaluates n scope e lenient s f lenient' s' →
      Part n scope f lenient' s' f' lenient'' s'' → Evaluates n scope e lenient s f' lenient'' s''

/-- What `||` and `&&` do. -/
theorem evalExpr_logical {scope : Scope} {op : Operator} (hop : op.isLogical = true) (lhs rhs : Expr)
    (lenient : Bool) :
    evalExpr scope (.binary lhs op rhs) lenient = (evalExpr scope lhs lenient >>= fun a =>
      if op.decides a.isTrue then return .bool a.isTrue
      else evalExpr scope rhs lenient >>= fun b => return .bool b.isTrue) := by
  cases op with
  | or =>
    rw [evalExpr]
    congr 1
    funext a
    cases ha : a.isTrue <;> simp [Operator.decides]
  | and =>
    rw [evalExpr]
    congr 1
    funext a
    cases ha : a.isTrue <;> simp [Operator.decides]
  | _ => cases hop

theorem evalExpr_negation {scope : Scope} (place : Place) (e : Expr) (lenient : Bool) :
    evalExpr scope (.negation place e) lenient =
      (evalExpr scope e lenient >>= fun a => return .bool !a.isTrue) := by
  rw [evalExpr]

/-! ### Chains of suffixes -/

section

variable {scope : Scope} {n : Nat} {s s' : Store} {place : Place} {source : List Suffix → String}
  {done before after : List Suffix} {v v' : Value}

theorem evalSuffixes_cons (hv : v.HasSuffixes) (suffix : Suffix) (rest : List Suffix) :
    evalSuffixes scope place source done (suffix :: rest) v =
      (evalSuffix scope place (fun _ => source (done ++ [suffix])) suffix v >>= fun next =>
        evalSuffixes scope place source (done ++ [suffix]) rest next) := by
  cases v <;> first | exact False.elim hv | rfl

/-- Suffixes are taken of null and of blocks only where there are none. -/
theorem hasSuffixes_of_evalSuffixes {suffix : Suffix} {rest : List Suffix}
    (h : (evalSuffixes scope place source done (suffix :: rest) v).run (Deeper.within n) s = .ok v' s') :
    v.HasSuffixes := by
  cases v <;> trivial

/-- Behind some suffixes the others are taken. -/
theorem Reaches.suffixes (after : List Suffix)
    (h : (evalSuffixes scope place source done before v).run (Deeper.within n) s = .ok v' s') :
    Reaches n (evalSuffixes scope place source (done ++ before) after v') s' [] n
      (evalSuffixes scope place source done (before ++ after) v) s := by
  induction before generalizing done v s with
  | nil =>
    rw [evalSuffixes] at h
    cases h
    rw [List.append_nil]
    exact .here
  | cons suffix rest ih =>
    have hv := hasSuffixes_of_evalSuffixes h
    rw [evalSuffixes_cons hv, Script.run_bind] at h
    cases hnext : (evalSuffix scope place (fun _ => source (done ++ [suffix])) suffix v).run (Deeper.within n) s with
    | error e s₁ =>
      rw [Run.bind_eq_error.2 (.inl hnext)] at h
      cases h
    | ok next s₁ =>
      rw [Run.bind_ok hnext] at h
      have hrest := ih h
      rw [List.append_assoc] at hrest
      rw [List.cons_append, evalSuffixes_cons hv]
      exact .later hnext hrest

/-- A reference reads its variable, if that is defined, and takes its suffixes. -/
theorem evalExpr_reference (x : String) (quiet : Bool) (suffixes : List Suffix) (lenient : Bool) :
    evalExpr scope (.reference place x quiet suffixes) lenient =
      ((Script.act (.defined x) : Script scope Bool) >>= fun b =>
        if b then Script.read x >>= evalSuffixes scope place (referenceSource x quiet) [] suffixes
        else if lenient && suffixes.isEmpty then return .bool false
        else Script.failAt place (.undefined x)) := by
  rw [evalExpr]
  rfl

variable (scope place s) in
theorem run_evalExpr_reference (d : Deeper) (x : String) (quiet : Bool) (suffixes : List Suffix) (lenient : Bool) :
    (evalExpr scope (.reference place x quiet suffixes) lenient).run d s =
      (if s.isDefined scope x then
          Script.read x >>= evalSuffixes scope place (referenceSource x quiet) [] suffixes
        else if lenient && suffixes.isEmpty then return .bool false
        else Script.failAt place (.undefined x) : Script scope Value).run d s := by
  rw [evalExpr_reference]
  exact Run.bind_ok rfl

/-- Behind the beginning of a reference its other suffixes are taken. -/
theorem Reaches.reference {x : String} {quiet : Bool} (after : List Suffix) (lenient : Bool)
    (h : (evalExpr scope (.reference place x quiet before) false).run (Deeper.within n) s = .ok v s') :
    Reaches n (evalSuffixes scope place (referenceSource x quiet) before after v) s' [] n
      (evalExpr scope (.reference place x quiet (before ++ after)) lenient) s := by
  rw [run_evalExpr_reference] at h
  rw [evalExpr_reference]
  refine .later (a := s.isDefined scope x) rfl ?_
  cases hx : s.isDefined scope x with
  | false =>
    rw [hx] at h
    cases h
  | true =>
    rw [hx, if_pos rfl] at h
    rw [if_pos rfl]
    cases hread : (Script.read x : Script scope Value).run (Deeper.within n) s with
    | error e s₁ =>
      rw [Script.run_bind, Run.bind_eq_error.2 (.inl hread)] at h
      cases h
    | ok w s₁ =>
      rw [Script.run_bind, Run.bind_ok hread] at h
      exact .later hread (.suffixes after h)

end

/-! ### Rows of expressions and nodes -/

section

variable {scope : Scope} {n : Nat} {s s' : Store}

/-- Behind some elements the next one is evaluated. -/
theorem Reaches.element {es : List Expr} {vs : List Value} (e : Expr) (fs : List Expr)
    (h : (evalExprs scope es).run (Deeper.within n) s = .ok vs s') :
    Reaches n (evalExpr scope e false) s' [] n (evalExprs scope (es ++ e :: fs)) s := by
  induction es generalizing s vs with
  | nil =>
    rw [evalExprs] at h
    cases h
    rw [List.nil_append, evalExprs]
    exact .first .here
  | cons f es ih =>
    rw [evalExprs] at h
    rw [List.cons_append, evalExprs]
    cases hf : (evalExpr scope f false).run (Deeper.within n) s with
    | error e s₁ =>
      rw [Script.run_bind, Run.bind_eq_error.2 (.inl hf)] at h
      cases h
    | ok v s₁ =>
      rw [Script.run_bind, Run.bind_ok hf] at h
      cases hes : (evalExprs scope es).run (Deeper.within n) s₁ with
      | error e s₂ =>
        rw [Script.run_bind, Run.bind_eq_error.2 (.inl hes)] at h
        cases h
      | ok ws s₂ =>
        rw [Script.run_bind, Run.bind_ok hes] at h
        cases h
        exact .later hf (.first (ih hes))

/-- Behind some nodes the next one is rendered. -/
theorem Reaches.node {before : List Node} (node : Node) (after : List Node)
    (h : (renderNodes scope before).run (Deeper.within n) s = .ok () s') :
    Reaches n (renderNode scope node) s' [] n (renderNodes scope (before ++ node :: after)) s := by
  induction before generalizing s with
  | nil =>
    rw [renderNodes] at h
    cases h
    rw [List.nil_append, renderNodes]
    exact .first .here
  | cons m before ih =>
    rw [renderNodes] at h
    rw [List.cons_append, renderNodes]
    cases hm : (renderNode scope m).run (Deeper.within n) s with
    | error e s₁ =>
      rw [Script.run_bind, Run.bind_eq_error.2 (.inl hm)] at h
      cases h
    | ok v s₁ =>
      rw [Script.run_bind, Run.bind_ok hm] at h
      exact .later hm (ih h)

end

/-! ### Parts are begun in evaluating the whole -/

section

variable {scope : Scope} {n : Nat} {e f : Expr} {lenient lenient' : Bool} {s s' : Store}

theorem Part.reaches (h : Part n scope e lenient s f lenient' s') :
    Reaches n (evalExpr scope f lenient') s' [] n (evalExpr scope e lenient) s := by
  cases h with
  | @left _ op rhs =>
    rw [evalExpr.eq_def scope (.binary ..)]
    cases op <;> exact .first .here
  | undecided hop hl ha =>
    rw [evalExpr_logical hop]
    refine .later hl ?_
    rw [ha]
    exact .first .here
  | @right lhs op _ _ _ _ a hlogical hnumber hl =>
    rw [evalExpr.eq_def scope (.binary ..)]
    cases op with
    | or | and => cases hlogical
    | equal | notEqual | plus => exact .later hl (.first .here)
    | _ => cases hnumber
  | @number lhs op _ _ _ _ _ a i hnumber hl hi =>
    rw [evalExpr.eq_def scope (.binary ..)]
    cases op with
    | or | and | equal | notEqual | plus => cases hnumber
    | _ => exact .later hl (.later hi (.first .here))
  | negated =>
    rw [evalExpr_negation]
    exact .first .here
  | element hes =>
    rw [evalExpr]
    exact .first (.element _ _ hes)
  | first =>
    rw [evalExpr]
    exact .first .here
  | last hf hi =>
    rw [evalExpr]
    exact .later hf (.later hi (.first .here))
  | @argument _ _ _ _ name es _ fs after _ _ _ _ _ _ hv hs hes =>
    have hsuffix := Reaches.reference (.method name (es ++ f :: fs) :: after) lenient hv
    rw [evalSuffixes_cons hs, evalSuffix] at hsuffix
    exact (Reaches.first (.first (.element _ _ hes))).trans hsuffix
  | @key _ _ _ _ _ after _ _ _ _ hv hs =>
    have hsuffix := Reaches.reference (.index f :: after) lenient hv
    rw [evalSuffixes_cons hs, evalSuffix] at hsuffix
    exact (Reaches.first (.first .here)).trans hsuffix
  | @written _ _ _ _ after _ _ _ hbefore =>
    rw [evalExpr]
    have houtput := Reaches.node (.output f) after hbefore
    rw [renderNode] at houtput
    exact .first (.capture ((Reaches.first .here).trans houtput))

/-- A part of an expression is evaluated in the middle of evaluating the expression. -/
theorem Evaluates.reaches (h : Evaluates n scope e lenient s f lenient' s') :
    Reaches n (evalExpr scope f lenient') s' [] n (evalExpr scope e lenient) s := by
  induction h with
  | whole => exact .here
  | part _ hp ih => exact hp.reaches.trans ih

end

end Stencil
