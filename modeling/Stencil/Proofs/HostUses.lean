import Stencil.Proofs.Parts
import Stencil.Proofs.RawFailures

/-!
# Where host values are used

Expressions and nodes use host values: they read properties, call methods, take items, and ask for texts.
`UsesHost` says from which store they do, and for the node at which place. A failure there becomes an evaluation
error at that place, unless it is one of the host itself. Taking the next item of a loop is no use in this sense,
and what fails there comes out as it is: `Template.host_failures_reported`.
-/

namespace Stencil

open Layer (through steps)
open Failure (IsEvaluation IsOrdinary IsRaw IsUse)

/-- What an evaluation asks the host for. -/
inductive HostUse where
  | property (v : Value) (name : String)
  | call (v : Value) (name : String) (args : List Value)
  | item (v key : Value)
  | text (v : Value)

namespace HostUse

/-- What the host gives. -/
def Result : HostUse → Type
  | text _ => String
  | _ => Value

/-- Asks a host. -/
def script {scope : Scope} (host : HostKind) : (u : HostUse) → Script scope u.Result
  | property v name => Host.propertyOf v name
  | call v name args => Host.callMethodOf v name args
  | item v key => Host.indexOf v key
  | text v => host.textOf v

/-- What the node at a place makes of a failure. `source` is what the reference reads that uses the value. -/
def report (place : Place) (source : String) : HostUse → Failure → Failure
  | text _, f => f.at place
  | _, f => f.using place source

end HostUse

/-- The values whose texts an operator asks for, in order: values of different types are compared by their texts,
and a sum with a text is one. -/
def Operator.texts : Operator → Value → Value → List Value
  | equal, a, b | notEqual, a, b =>
    match a, b with
    | .null, _ | _, .null => []
    | a, b => if a.typeName = b.typeName then [] else [a, b]
  | plus, a, b =>
    match a, b with
    | .str _, .null => [a]
    | .null, .str _ => [b]
    | .null, _ | _, .null | .int _, .int _ => []
    | a, b => [a, b]
  | _, _, _ => []

/-- Whether a value can stand where an integer is wanted. -/
def Value.IsNumber : Value → Prop
  | null | int _ => True
  | _ => False

/-- An expression or a node, evaluated or rendered from a store, uses a host value for the node at a place, from
another store. The text is that of the reference that uses it. -/
inductive UsesHost (n : Nat) (scope : Scope) :
    {α : Type} → Script scope α → Store → HostUse → Place → String → Store → Prop where
  | member {place x quiet before name after lenient s s' v} :
      (evalExpr scope (.reference place x quiet before) false).run (Deeper.within n) s = .ok v s' →
      v.HasSuffixes →
      UsesHost n scope (evalExpr scope (.reference place x quiet (before ++ .member name :: after)) lenient) s
        (.property v name) place (referenceSource x quiet (before ++ [.member name])) s'
  | method {place x quiet before name args after lenient s s' s'' v vs} :
      (evalExpr scope (.reference place x quiet before) false).run (Deeper.within n) s = .ok v s' →
      v.HasSuffixes → (evalExprs scope args).run (Deeper.within n) s' = .ok vs s'' →
      UsesHost n scope (evalExpr scope (.reference place x quiet (before ++ .method name args :: after)) lenient) s
        (.call v name vs) place (referenceSource x quiet (before ++ [.method name args])) s''
  | index {place x quiet before key after lenient s s' s'' v k} :
      (evalExpr scope (.reference place x quiet before) false).run (Deeper.within n) s = .ok v s' →
      v.HasSuffixes → (evalExpr scope key false).run (Deeper.within n) s' = .ok k s'' →
      UsesHost n scope (evalExpr scope (.reference place x quiet (before ++ .index key :: after)) lenient) s
        (.item v k) place (referenceSource x quiet (before ++ [.index key])) s''
  /-- The text of the first of the operands that are compared or joined by their texts. -/
  | firstText {lhs op rhs lenient s s' s'' a b v vs source} :
      (evalExpr scope lhs false).run (Deeper.within n) s = .ok a s' →
      (evalExpr scope rhs false).run (Deeper.within n) s' = .ok b s'' → op.texts a b = v :: vs →
      UsesHost n scope (evalExpr scope (.binary lhs op rhs) lenient) s (.text v) (Expr.binary lhs op rhs).place
        source s''
  | secondText {lhs op rhs lenient s s' s'' s''' a b v w text source} :
      (evalExpr scope lhs false).run (Deeper.within n) s = .ok a s' →
      (evalExpr scope rhs false).run (Deeper.within n) s' = .ok b s'' → op.texts a b = [v, w] →
      (hostText (Expr.binary lhs op rhs).place v : Script scope String).run (Deeper.within n) s'' = .ok text s''' →
      UsesHost n scope (evalExpr scope (.binary lhs op rhs) lenient) s (.text w) (Expr.binary lhs op rhs).place
        source s'''
  /-- The text of an operand that is no integer, for the message. -/
  | leftNumber {lhs op rhs lenient s s' a source} : op.takesIntegers = true →
      (evalExpr scope lhs false).run (Deeper.within n) s = .ok a s' → ¬ a.IsNumber →
      UsesHost n scope (evalExpr scope (.binary lhs op rhs) lenient) s (.text a) lhs.place source s'
  | rightNumber {lhs op rhs lenient s s' s'' s''' a b i source} : op.takesIntegers = true →
      (evalExpr scope lhs false).run (Deeper.within n) s = .ok a s' →
      (integerOperand lhs.place a : Script scope _).run (Deeper.within n) s' = .ok i s'' →
      (evalExpr scope rhs false).run (Deeper.within n) s'' = .ok b s''' → ¬ b.IsNumber →
      UsesHost n scope (evalExpr scope (.binary lhs op rhs) lenient) s (.text b) rhs.place source s'''
  | firstBound {place first last lenient s s' a source} :
      (evalExpr scope first false).run (Deeper.within n) s = .ok a s' → ¬ a.IsNumber →
      UsesHost n scope (evalExpr scope (.range place first last) lenient) s (.text a) first.place source s'
  | lastBound {place first last lenient s s' s'' s''' a b i source} :
      (evalExpr scope first false).run (Deeper.within n) s = .ok a s' →
      (bound first.place a : Script scope Int).run (Deeper.within n) s' = .ok i s'' →
      (evalExpr scope last false).run (Deeper.within n) s'' = .ok b s''' → ¬ b.IsNumber →
      UsesHost n scope (evalExpr scope (.range place first last) lenient) s (.text b) last.place source s'''
  | output {e s s' v source} : (evalExpr scope e false).run (Deeper.within n) s = .ok v s' → v ≠ .null →
      UsesHost n scope (renderNode scope (.output e)) s (.text v) e.place source s'
  /-- The text of what has no items, for the message. -/
  | collection {place x e body s s' v source} :
      (evalExpr scope e false).run (Deeper.within n) s = .ok v s' → v ≠ .null → Run.source? v = none →
      UsesHost n scope (renderNode scope (.foreach place x e body)) s (.text v) place source s'
  | evaluated {place e s s' v source} :
      (evalExpr scope e false).run (Deeper.within n) s = .ok v s' → v ≠ .null → (∀ text, v ≠ .str text) →
      UsesHost n scope (renderNode scope (.evaluate place e)) s (.text v) place source s'

/-! ### Texts of operands -/

section

variable {scope : Scope} {n : Nat} {place : Place} {lhs rhs : Expr} {a b v w : Value} {s s' : Store}

theorem operandText_of_ne_null (h : v ≠ .null) (operand : Expr) :
    (operandText place operand v : Script scope String) = hostText place v := by
  cases v <;> first | exact absurd rfl h | rfl

theorem shown_of_ne_null (h : v ≠ .null) :
    (shown place v : Script scope String) =
      (hostText place v >>= fun text => return s!"{text} (a {v.typeName})") := by
  cases v <;> first | exact absurd rfl h | rfl

theorem equal_of_texts {vs : List Value} (h : Operator.texts .equal a b = v :: vs) :
    v = a ∧ vs = [b] ∧ (equal place a b : Script scope Bool) =
      (hostText place a >>= fun left => hostText place b >>= fun right => return left == right) := by
  unfold Operator.texts at h
  dsimp only at h
  split at h
  · cases h
  · cases h
  · split at h
    · cases h
    · rename_i ha hb htype
      cases h
      refine ⟨rfl, rfl, ?_⟩
      unfold equal
      split
      · exact absurd rfl ha
      · exact absurd rfl ha
      · exact absurd rfl hb
      · rw [if_neg htype]

variable (place v s) in
theorem reaches_hostText :
    Reaches n (HostUse.script (s.root scope.root).host (.text v) : Script scope _) s
      [.rethrow (Failure.at place)] n (hostText place v : Script scope String) s :=
  .later (a := (s.root scope.root).host) rfl (.rethrow (fun _ => rfl) .here)

theorem reaches_integerOperand (h : ¬ v.IsNumber) (s : Store) :
    Reaches n (HostUse.script (s.root scope.root).host (.text v) : Script scope _) s
      [.rethrow (Failure.at place)] n (integerOperand place v : Script scope (Option Int)) s := by
  have hnull : v ≠ .null := by
    rintro rfl
    exact h trivial
  have hshown : (integerOperand place v : Script scope (Option Int)) =
      (shown place v >>= fun text => Script.failAt place (.notInteger text)) := by
    cases v <;> first | exact absurd trivial h | rfl
  rw [hshown, shown_of_ne_null hnull]
  exact .first (.first (reaches_hostText place v s))

variable (scope place lhs rhs) in
/-- The texts of two values that are added are asked for to be joined, or to be shown in the message. -/
theorem plus_of_texts (h : Operator.texts .plus a b = [v, w]) :
    v = a ∧ w = b ∧ ((plus place lhs rhs a b : Script scope Value) =
        (hostText place a >>= fun left => hostText place b >>= fun right => return .str (left ++ right)) ∨
      (plus place lhs rhs a b : Script scope Value) =
        ((hostText place a >>= fun text => return s!"{text} (a {a.typeName})") >>= fun left =>
          (hostText place b >>= fun text => return s!"{text} (a {b.typeName})") >>= fun right =>
            Script.failAt place (.notAddable left right))) := by
  unfold Operator.texts at h
  dsimp only at h
  split at h
  case h_6 hb ha _ _ hint =>
    cases h
    refine ⟨rfl, rfl, ?_⟩
    unfold plus
    split
    · rw [operandText_of_ne_null hb, operandText_of_ne_null ha]
      exact .inl rfl
    · rw [operandText_of_ne_null hb, operandText_of_ne_null ha]
      exact .inl rfl
    · exact absurd rfl hb
    · exact absurd rfl ha
    · exact absurd rfl (hint _ _ rfl)
    · rw [shown_of_ne_null hb, shown_of_ne_null ha]
      exact .inr rfl
  all_goals cases h

/-- Where two texts are asked for, the first comes first. -/
theorem reaches_plus_first {vs : List Value} (h : Operator.texts .plus a b = v :: vs) (s : Store) :
    Reaches n (HostUse.script (s.root scope.root).host (.text v) : Script scope _) s
      [.rethrow (Failure.at place)] n (plus place lhs rhs a b : Script scope Value) s := by
  have htext : Reaches n _ s _ n (hostText place v : Script scope String) s := reaches_hostText place v s
  have hcases := h
  unfold Operator.texts at hcases
  dsimp only at hcases
  split at hcases
  case h_1 =>
    cases hcases
    exact .first htext
  case h_2 =>
    cases hcases
    exact .later (a := lhs.source) rfl (.first htext)
  case h_6 =>
    cases hcases
    obtain ⟨-, -, hplus | hplus⟩ := plus_of_texts scope place lhs rhs h <;> rw [hplus]
    · exact .first htext
    · exact .first (.first htext)
  all_goals cases hcases

theorem reaches_plus_second (h : Operator.texts .plus a b = [v, w]) {text : String}
    (hfirst : (hostText place v : Script scope String).run (Deeper.within n) s = .ok text s') :
    Reaches n (HostUse.script (s'.root scope.root).host (.text w) : Script scope _) s'
      [.rethrow (Failure.at place)] n (plus place lhs rhs a b : Script scope Value) s := by
  obtain ⟨rfl, rfl, hplus | hplus⟩ := plus_of_texts scope place lhs rhs h <;> rw [hplus]
  · exact .later hfirst (.first (reaches_hostText place w s'))
  · exact .later (Run.bind_ok hfirst) (.first (.first (reaches_hostText place w s')))

end

/-- A failure of the host comes out of the use in the words of the node. -/
theorem UsesHost.reaches {scope : Scope} {n : Nat} {α : Type} {y : Script scope α} {u : HostUse} {place : Place}
    {source : String} {s s' : Store} (h : UsesHost n scope y s u place source s') :
    Reaches n (u.script (s'.root scope.root).host : Script scope u.Result) s' [.rethrow (u.report place source)]
      n y s := by
  cases h with
  | @member _ _ _ _ name after lenient _ _ v hv hs =>
    have hsuffix := Reaches.reference (.member name :: after) lenient hv
    rw [evalSuffixes_cons hs, evalSuffix] at hsuffix
    exact (Reaches.first (.rethrow (fun _ => rfl) .here)).trans hsuffix
  | @method _ _ _ _ name args after lenient _ _ _ v vs hv hs hargs =>
    have hsuffix := Reaches.reference (.method name args :: after) lenient hv
    rw [evalSuffixes_cons hs, evalSuffix] at hsuffix
    exact (Reaches.first (.later hargs (.rethrow (fun _ => rfl) .here))).trans hsuffix
  | @index _ _ _ _ key after lenient _ _ _ v k hv hs hkey =>
    have hsuffix := Reaches.reference (.index key :: after) lenient hv
    rw [evalSuffixes_cons hs, evalSuffix] at hsuffix
    exact (Reaches.first (.later hkey (.rethrow (fun _ => rfl) .here))).trans hsuffix
  | @firstText lhs op rhs _ _ _ _ a b v vs _ hl hr ht =>
    rw [evalExpr.eq_def scope (.binary ..)]
    cases op with
    | equal | notEqual =>
      obtain ⟨rfl, rfl, hequal⟩ := equal_of_texts ht
      refine .later hl (.later hr (.first ?_))
      rw [hequal]
      exact .first (reaches_hostText _ _ _)
    | plus => exact .later hl (.later hr (reaches_plus_first ht _))
    | _ => cases ht
  | @secondText lhs op rhs _ _ _ _ _ a b v w text _ hl hr ht hfirst =>
    rw [evalExpr.eq_def scope (.binary ..)]
    cases op with
    | equal | notEqual =>
      obtain ⟨rfl, hb, hequal⟩ := equal_of_texts ht
      cases hb
      refine .later hl (.later hr (.first ?_))
      rw [hequal]
      exact .later hfirst (.first (reaches_hostText _ _ _))
    | plus => exact .later hl (.later hr (reaches_plus_second ht hfirst))
    | _ => cases ht
  | @leftNumber lhs op _ _ _ _ _ _ hop hl ha =>
    rw [evalExpr.eq_def scope (.binary ..)]
    cases op with
    | or | and | equal | notEqual | plus => cases hop
    | _ => exact .later hl (.first (reaches_integerOperand ha _))
  | @rightNumber lhs op _ _ _ _ _ _ _ _ _ _ hop hl hi hr hb =>
    rw [evalExpr.eq_def scope (.binary ..)]
    cases op with
    | or | and | equal | notEqual | plus => cases hop
    | _ => exact .later hl (.later hi (.later hr (.first (reaches_integerOperand hb _))))
  | firstBound hf ha =>
    rw [evalExpr]
    exact .later hf (.first (.first (reaches_integerOperand ha _)))
  | lastBound hf hi hl hb =>
    rw [evalExpr]
    exact .later hf (.later hi (.later hl (.first (.first (reaches_integerOperand hb _)))))
  | output he hv =>
    rw [renderNode]
    refine .later he ?_
    cases ‹Value› <;> first
      | exact absurd rfl hv
      | exact .first (reaches_hostText _ _ _)
  | collection he hv hsource =>
    rw [renderNode]
    refine .later he ?_
    cases ‹Value› <;> first
      | exact absurd rfl hv
      | cases hsource
        done
      | exact .first (reaches_hostText _ _ _)
  | evaluated he hv htext =>
    rw [renderNode]
    refine .later he ?_
    cases ‹Value› <;> first
      | exact absurd rfl hv
      | exact absurd rfl (htext _)
      | exact .first (reaches_hostText _ _ _)

namespace HostUse

/-- What the host may fail with, but for what comes out of blocks as it is. -/
def Kind : HostUse → Failure → Prop
  | text _ => IsOrdinary
  | _ => IsUse

variable {scope : Scope} {u : HostUse} {n : Nat} {s s' : Store} {f : Failure}

theorem fails (u : HostUse) (host : HostKind) : Script.Fails .any u.Kind (u.script host : Script scope u.Result) := by
  cases u with
  | property v name => exact fails_propertyOf v name
  | call v name args => exact fails_callMethodOf v name args
  | item v key => exact fails_indexOf v key
  | text v => exact fails_hostTextOf host v

end HostUse

end Stencil
