import Stencil.Proofs.Agree

/-!
# Scripts that differ in places

What evaluating a tree does depends on the places in it only in the places that it gives on. Scripts that
differ in no more than that are alike: the scripts of host code are like themselves, and those of trees
that are alike are alike.
-/

namespace Stencil

/-- Scripts that differ in places only. The result of an act may differ between them, and what follows
the act makes up for that. -/
inductive Script.Like (strict : Bool) {scope : Scope} :
    {α : Type} → Script scope α → Script scope α → Prop
  | done {α : Type} {a : α} : Script.Like strict (.done a) (.done a)
  | andThen {α β : Type} {x x' : Script scope β} {f f' : β → Script scope α}
      (first : Script.Like strict x x') (second : ∀ b, Script.Like strict (f b) (f' b)) :
      Script.Like strict (.andThen x f) (.andThen x' f')
  | act {α : Type} {a a' : Act α} (ha : a.Like strict Eq a') : Script.Like strict (.act a) (.act a')
  | andAct {α β : Type} {a a' : Act β} {B : β → β → Prop} {f f' : β → Script scope α}
      (ha : a.Like strict B a') (second : ∀ b b', B b b' → Script.Like strict (f b) (f' b')) :
      Script.Like strict (.andThen (.act a) f) (.andThen (.act a') f')
  | leave {α : Type} {p p' : Place} {b : Bool} (hp : p.Like strict p') :
      Script.Like strict (.leave p b : Script scope α) (.leave p' b)
  | read {x : String} : Script.Like strict (.read x) (.read x)
  | assign {x : String} {v : Value} : Script.Like strict (.assign x v) (.assign x v)
  | capture {x x' : Script scope Unit} (inner : Script.Like strict x x') :
      Script.Like strict (.capture x) (.capture x')
  | rethrow {α : Type} {f f' : Failure → Failure} {x x' : Script scope α}
      (hf : strict = true → f = f') (inner : Script.Like strict x x') :
      Script.Like strict (.rethrow f x) (.rethrow f' x')
  | loop {x : String} {source : Source} {body body' : Script scope Unit}
      (inner : Script.Like strict body body') :
      Script.Like strict (.loop x source body) (.loop x source body')
  | call {m m' : MacroDef} {args args' : List Expr} {body body' : Option (List Node)}
      (hm : LikeMacro strict m m') (ha : LikeExprs strict args args')
      (hb : Store.LikeBody strict body body') :
      Script.Like strict (.call m args body) (.call m' args' body')
  | template {t t' : Template} (ht : LikeDocument strict t.document t'.document) :
      Script.Like strict (.template t) (.template t')
  | block {b : BlockRef} : Script.Like strict (.block b) (.block b)
  | text {v : Value} : Script.Like strict (.text v) (.text v)

namespace Script.Like

variable {strict : Bool} {scope : Scope} {α β : Type}

theorem bind {x x' : Script scope β} {f f' : β → Script scope α} (hx : Script.Like strict x x')
    (hf : ∀ b, Script.Like strict (f b) (f' b)) : Script.Like strict (x >>= f) (x' >>= f') :=
  .andThen hx hf

theorem step (x : Step α) : Script.Like strict (.act (.step x) : Script scope α) (.act (.step x)) :=
  .act (.step x)

theorem fail {f f' : Failure} (hf : strict = true → f = f') :
    Script.Like strict (Script.fail f : Script scope α) (Script.fail f') :=
  .act (.fail hf)

theorem failAt {p p' : Place} {cause cause' : EvalCause} (hp : p.Like strict p')
    (hc : strict = true → cause = cause') :
    Script.Like strict (Script.failAt p cause : Script scope α) (Script.failAt p' cause') :=
  .fail fun hs => by rw [hp hs, hc hs]

theorem map {x x' : Script scope β} (f : β → α) (hx : Script.Like strict x x') :
    Script.Like strict (x >>= fun b => Pure.pure (f b)) (x' >>= fun b => Pure.pure (f b)) :=
  .andThen hx fun _ => .done

end Script.Like

open Script (Like)

variable {strict : Bool} {scope : Scope}

/-! ### Host code -/

theorem like_formattedWithin (n : Nat) (v : Value) :
    Like strict (formattedWithin n v : Script scope String) (formattedWithin n v) := by
  induction n generalizing v with
  | zero => exact .step _
  | succ n ih =>
    cases v with
    | str s => exact .done
    | object cls ref =>
      refine .bind (.step _) fun state => ?_
      split
      · exact .map _ (ih _)
      · exact .step _
      · exact .done
      · exact .done
    | loop _ => exact .done
    | block b => exact .block
    | day _ => exact .done
    | moment _ => exact .done
    | _ => exact .bind (.step _) fun _ => .done

theorem like_formatted (v : Value) :
    Like strict (formatted v : Script scope String) (formatted v) :=
  .bind (.step _) fun _ => like_formattedWithin _ v

theorem like_listTextsFrom (r : ListRef) (texts : Array String) (n position : Nat) :
    Like strict (listTextsFrom r texts n position : Script scope (List String))
      (listTextsFrom r texts n position) := by
  induction n generalizing texts position with
  | zero => exact .step _
  | succ n ih =>
    rw [listTextsFrom]
    refine .bind (.step _) fun items => ?_
    split
    · exact .bind .text fun text => ih _ _
    · exact .done

mutual

theorem like_textOf : (v : Value) → Like strict (textOf v : Script scope String) (textOf v)
  | .null | .bool _ | .range .. => .done
  | .tuple vs | .set vs | .keys vs => .map _ (like_textsOf vs)
  | .map entries => .map _ (like_entryTextsOf entries)
  | .list r => .bind (.act .fuel) fun n => .map _ (like_listTextsFrom r #[] n 0)
  | .int _ | .float _ | .str _ | .bytes _ | .stream _ | .loop _ | .block _ | .object .. | .type _
  | .function .. | .getter .. | .day _ | .moment _ | .nan _ => like_formatted _

theorem like_textsOf : (vs : List Value) → Like strict (textsOf vs : Script scope (List String)) (textsOf vs)
  | [] => .done
  | v :: vs => .bind (like_textOf v) fun _ => .map _ (like_textsOf vs)

theorem like_entryTextsOf : (es : List (Value × Value)) →
    Like strict (entryTextsOf es : Script scope (List String)) (entryTextsOf es)
  | [] => .done
  | (k, v) :: es => .bind (like_textOf k) fun _ => .bind (like_textOf v) fun _ =>
    .map _ (like_entryTextsOf es)

end

theorem like_hostTextOf (host : HostKind) (v : Value) :
    Like strict (host.textOf v : Script scope String) (host.textOf v) := by
  cases host with
  | standard => exact like_textOf v
  | shouting => exact .map _ (like_textOf v)
  | failing => exact .step _

/-- The methods of a person do one of a few things: they give a value or stop, or they ask the cells or
the object first, or they format a value. -/
theorem like_callPerson (self : Value) (method : String) (args : List Value) :
    Like strict (Object.callPerson self method args : Script scope Value)
      (Object.callPerson self method args) := by
  rw [Object.callPerson.eq_def]
  split
  case h_2 =>
    exact .bind (.step _) fun _ => .bind (like_formatted _) fun _ => .map _ (like_formatted _)
  case h_7 =>
    refine .bind (.step _) fun items => ?_
    split
    · exact .done
    · exact .step _
  all_goals
    first
    | exact .done
    | exact .step _
    | exact .bind (.step _) fun _ => .done
    | exact .bind (.step _) fun _ => .map _ (.step _)
    | exact .bind (like_formatted _) fun _ => .step _

theorem like_objectCall (cls : HostClass) (self : Value) (method : String) (args : List Value) :
    Like strict (Object.call cls self method args : Script scope Value)
      (Object.call cls self method args) := by
  rw [Object.call.eq_def]
  split
  · exact like_callPerson _ _ _
  · exact .done
  · exact .done
  · exact .done
  · refine .bind (.step _) fun state => ?_
    split
    · exact .bind (.step _) fun _ => .done
    · exact .done
    · exact .done
  · exact .done

theorem like_methodCall (m : Method) (args : List Value) :
    Like strict (m.call args : Script scope Value) (m.call args) := by
  rw [Method.call]
  split
  · exact like_objectCall _ _ _ _
  · exact .bind (.act .fuel) fun _ => .step _

theorem like_propertyOf (v : Value) (name : String) :
    Like strict (Host.propertyOf v name : Script scope Value) (Host.propertyOf v name) := by
  rw [Host.propertyOf.eq_def]
  split
  · exact .done
  · split
    · exact .step _
    · refine .bind (.step _) fun found => ?_
      split
      · exact .bind (like_textOf v) fun _ => .step _
      · exact .done
      · exact like_methodCall _ _
      · exact .done
      · exact .step _

theorem like_callFunction (cls : HostClass) (name : String) (args : List Value) :
    Like strict (Host.callFunction cls name args : Script scope Value)
      (Host.callFunction cls name args) := by
  rw [Host.callFunction.eq_def]
  split
  · exact like_objectCall _ _ _ _
  · exact .step _

/-- What calling a member does is like itself. -/
theorem like_callable {m : Member} {sig : Option Signature} {run : List Value → Script scope Value}
    (h : Host.callable? m = some (sig, run)) (args : List Value) :
    Like strict (run args) (run args) := by
  rw [Host.callable?.eq_def] at h
  split at h
  · cases h
    exact like_methodCall _ _
  · cases h
    exact like_callFunction _ _ _
  · cases h
    exact .step _
  · cases h

theorem like_callMethodOf (v : Value) (name : String) (args : List Value) :
    Like strict (Host.callMethodOf v name args : Script scope Value) (Host.callMethodOf v name args) := by
  unfold Host.callMethodOf
  extract_lets call
  have hcall : ∀ m, Like strict (call m) (call m) := by
    intro m
    unfold call
    split
    · exact .step _
    · split
      · exact like_callable ‹_› args
      · exact .bind (like_textsOf args) fun _ => .step _
  split
  · exact .bind .done hcall
  · exact .bind (.step _) hcall

theorem like_indexSequence (size : Nat) (item : Nat → Value) (key : Value) :
    Like strict (Host.indexSequence size item key : Script scope Value)
      (Host.indexSequence size item key) := by
  rw [Host.indexSequence.eq_def]
  split
  · exact .bind (.step _) fun _ => .step _
  · exact .bind (like_textOf _) fun _ => .step _

theorem like_indexOf (v key : Value) :
    Like strict (Host.indexOf v key : Script scope Value) (Host.indexOf v key) := by
  rw [Host.indexOf.eq_def]
  split
  · exact .bind (.step _) fun _ => like_indexSequence _ _ _
  · exact like_indexSequence _ _ _
  · exact like_indexSequence _ _ _
  · exact .step _
  · exact like_callMethodOf _ _ _

/-! ### Operands -/

theorem Failure.at_eq {p p' : Place} (hp : p.Like strict p') (hs : strict = true) :
    Failure.at p = Failure.at p' := by
  rw [hp hs]

theorem like_hostText {p p' : Place} (hp : p.Like strict p') (v : Value) :
    Like strict (hostText p v : Script scope String) (hostText p' v) :=
  .bind (.act .host) fun host => .rethrow (Failure.at_eq hp) (like_hostTextOf host v)

theorem like_shown {p p' : Place} (hp : p.Like strict p') (v : Value) :
    Like strict (shown p v : Script scope String) (shown p' v) := by
  rw [shown.eq_def, shown.eq_def]
  split
  · exact .done
  · exact .map _ (like_hostText hp _)

theorem like_integerOperand {p p' : Place} (hp : p.Like strict p') (v : Value) :
    Like strict (integerOperand p v : Script scope (Option Int)) (integerOperand p' v) := by
  rw [integerOperand.eq_def, integerOperand.eq_def]
  split
  · exact .done
  · exact .done
  · exact .bind (like_shown hp _) fun _ => .failAt hp fun _ => rfl

theorem like_bound {p p' : Place} (hp : p.Like strict p') (v : Value) :
    Like strict (bound p v : Script scope Int) (bound p' v) := by
  refine .bind (like_integerOperand hp v) fun n => ?_
  cases n with
  | some n => exact .done
  | none => exact .failAt hp fun _ => rfl

theorem like_equal {p p' : Place} (hp : p.Like strict p') (a b : Value) :
    Like strict (equal p a b : Script scope Bool) (equal p' a b) := by
  rw [equal.eq_def, equal.eq_def]
  split
  · exact .done
  · exact .done
  · exact .done
  · split
    · exact .bind (.step _) fun _ => .done
    · exact .bind (like_hostText hp _) fun _ => .map _ (like_hostText hp _)

theorem like_operandText {p p' : Place} (hp : p.Like strict p') {e e' : Expr}
    (he : LikeExpr strict e e') (v : Value) :
    Like strict (operandText p e v : Script scope String) (operandText p' e' v) := by
  rw [operandText.eq_def, operandText.eq_def]
  split
  · exact .act (.source he)
  · exact like_hostText hp _

theorem like_plus {p p' : Place} (hp : p.Like strict p') {e₁ e₁' e₂ e₂' : Expr}
    (h₁ : LikeExpr strict e₁ e₁') (h₂ : LikeExpr strict e₂ e₂') (a b : Value) :
    Like strict (plus p e₁ e₂ a b : Script scope Value) (plus p' e₁' e₂' a b) := by
  have htext : ∀ a b, Like strict
      (do
        let left ← operandText p e₁ a
        let right ← operandText p e₂ b
        return .str (left ++ right) : Script scope Value)
      (do
        let left ← operandText p' e₁' a
        let right ← operandText p' e₂' b
        return .str (left ++ right)) := fun a b =>
    .bind (like_operandText hp h₁ a) fun _ => .map _ (like_operandText hp h₂ b)
  rw [plus.eq_def, plus.eq_def]
  split
  · exact htext _ _
  · exact htext _ _
  · exact .done
  · exact .done
  · exact .done
  · exact .bind (like_shown hp _) fun _ => .bind (like_shown hp _) fun _ => .failAt hp fun _ => rfl

theorem like_arithmetic {p p' : Place} (hp : p.Like strict p') {e₁ e₁' e₂ e₂' : Expr}
    (h₁ : LikeExpr strict e₁ e₁') (h₂ : LikeExpr strict e₂ e₂') (op : Operator) (a b : Option Int) :
    Like strict (arithmetic p e₁ op e₂ a b : Script scope Value) (arithmetic p' e₁' op e₂' a b) := by
  rw [arithmetic.eq_def, arithmetic.eq_def]
  split
  · exact .done
  · split
    · exact .failAt hp fun hs => by rw [h₁.eq_of_strict hs]
    · exact .done
  · split
    · exact .failAt hp fun hs => by rw [h₂.eq_of_strict hs]
    · exact .done

/-! ### Directives -/

theorem like_callMacro {p p' : Place} (hp : p.Like strict p') (name : String) {args args' : List Expr}
    (ha : LikeExprs strict args args') {body body' : Option (List Node)}
    (hb : Store.LikeBody strict body body') :
    Like strict (callMacro p name args body : Script scope Unit) (callMacro p' name args' body') := by
  refine .andAct .find fun m m' hm => ?_
  cases hm with
  | none => exact .failAt hp fun _ => rfl
  | @some m m' hm =>
    show Like strict (if args.length = m.params.length then _ else _)
      (if args'.length = m'.params.length then _ else _)
    rw [← ha.length_eq, ← hm.params]
    split
    · exact .call hm ha hb
    · exact .failAt hp fun _ => rfl

theorem like_parseDirective {p p' : Place} (hp : p.Like strict p') (name : Value) :
    Like strict (parseDirective p name : Script scope Unit) (parseDirective p' name) := by
  rw [parseDirective.eq_def, parseDirective.eq_def]
  split
  · exact .andAct (.load hp) fun t t' ht => .template ht
  · exact .failAt hp fun _ => rfl
  · exact .failAt hp fun _ => rfl

theorem like_evaluateDirective {p p' : Place} (hp : p.Like strict p') (source : Value) :
    Like strict (evaluateDirective p source : Script scope Unit) (evaluateDirective p' source) := by
  rw [evaluateDirective.eq_def, evaluateDirective.eq_def]
  split
  · exact .done
  · exact .andAct (.parse hp) fun t t' ht => .template ht
  · exact .bind (like_hostText hp _) fun _ => .failAt hp fun _ => rfl

end Stencil
