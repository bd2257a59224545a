import Stencil.Evaluate.Render
import Stencil.Proofs.HostFailures

/-!
# What scripts fail with

`Script.Fails` reads off a script which failures it may stop with. The text of a value fails with ordinary
errors, the use of a host value with access errors too, and each becomes an evaluation error where the tree
uses the value; so evaluating an expression and rendering a node fail with evaluation errors only. What
words a failure anew leaves evaluation errors alone, and only macros add to their traces.
-/

namespace Stencil

open Failure (IsEvaluation IsFault IsFresh IsOfHost IsOrdinary IsRaw IsUse)

/-- Whether a function that words failures anew leaves evaluation errors as they are, and adds no macro to a
trace. -/
structure Failure.Rewords (f : Failure → Failure) : Prop where
  keeps : ∀ e, f (.evaluation e) = .evaluation e
  fresh : ∀ g, ¬ g.IsEvaluation → (f g).IsFresh

/-- Whether an act stops with failures of a kind only, and adds no macro to a trace. -/
def Act.Fails (Q : Cells.Invariant) (F : Failure → Prop) : {α : Type} → Act α → Prop
  | _, step x => x.Fails Q fun f => F f ∧ f.IsFresh
  | _, load .. | _, parse .. => ∀ e, F (.evaluation e)
  | _, _ => True

/-- Scripts that stop with failures of a kind only, if what they render one level deeper stops with
evaluation errors only and the text of a value with ordinary errors only. What words failures anew does so with
those that nothing has worded. -/
inductive Script.Fails {scope : Scope} (Q : Cells.Invariant) :
    (Failure → Prop) → {α : Type} → Script scope α → Prop
  | done {F : Failure → Prop} {α : Type} {a : α} : Script.Fails Q F (.done a)
  | andThen {F : Failure → Prop} {α β : Type} {x : Script scope β} {f : β → Script scope α}
      (first : Script.Fails Q F x) (second : ∀ b, Script.Fails Q F (f b)) : Script.Fails Q F (.andThen x f)
  | act {F : Failure → Prop} {α : Type} {a : Act α} (h : a.Fails Q F) : Script.Fails Q F (.act a)
  | leave {F : Failure → Prop} {α : Type} {p : Place} {b : Bool} :
      Script.Fails Q F (.leave p b : Script scope α)
  | read {F : Failure → Prop} {x : String} (h : ∀ e, F (.evaluation e)) : Script.Fails Q F (.read x)
  | assign {F : Failure → Prop} {x : String} {v : Value} : Script.Fails Q F (.assign x v)
  | capture {F : Failure → Prop} {x : Script scope Unit} (inner : Script.Fails Q F x) :
      Script.Fails Q F (.capture x)
  | rethrow {F G : Failure → Prop} {α : Type} {f : Failure → Failure} {x : Script scope α}
      (inner : Script.Fails Q G x) (h : ∀ e, G e → F (f e)) (raw : ∀ e, IsRaw e → F (f e))
      (words : Failure.Rewords f) : Script.Fails Q F (.rethrow f x)
  | loop {F : Failure → Prop} {x : String} {source : Source} {body : Script scope Unit}
      (inner : Script.Fails Q F body) : Script.Fails Q F (.loop x source body)
  | call {F : Failure → Prop} {m : MacroDef} {args : List Expr} {body : Option (List Node)}
      (h : ∀ e, F (.evaluation e)) : Script.Fails Q F (.call m args body)
  | template {F : Failure → Prop} {t : Template} (h : ∀ e, F (.evaluation e)) :
      Script.Fails Q F (.template t)
  | block {F : Failure → Prop} {b : BlockRef} (h : ∀ e, F (.evaluation e)) : Script.Fails Q F (.block b)
  | text {F : Failure → Prop} {v : Value} (h : ∀ f, IsOrdinary f → F f) : Script.Fails Q F (.text v)

namespace Script.Fails

variable {scope : Scope} {α β : Type} {Q : Cells.Invariant} {F G : Failure → Prop}

theorem bind {x : Script scope β} {f : β → Script scope α} (hx : Script.Fails Q F x)
    (hf : ∀ b, Script.Fails Q F (f b)) : Script.Fails Q F (x >>= f) :=
  .andThen hx hf

theorem map {x : Script scope β} (f : β → α) (hx : Script.Fails Q F x) :
    Script.Fails Q F (x >>= fun b => Pure.pure (f b)) :=
  .andThen hx fun _ => .done

theorem step {x : Step α} (h : x.Fails Q fun f => F f ∧ f.IsFresh) :
    Script.Fails Q F (.act (.step x) : Script scope α) :=
  .act h

/-- A step of host code raises no evaluation error. -/
theorem faults {x : Step α} (h : x.Fails Q IsFault) : Script.Fails Q IsOrdinary (.act (.step x) : Script scope α) :=
  .act (h.mono fun _ hf => ⟨hf.isOrdinary, hf.isOfHost.isFresh⟩)

theorem ofHost {x : Step α} (h : x.Fails Q IsOfHost) : Script.Fails Q IsUse (.act (.step x) : Script scope α) :=
  .act (h.mono fun _ hf => ⟨hf.isUse, hf.isFresh⟩)

theorem fail {f : Failure} (h : F f) (hfresh : f.IsFresh) : Script.Fails Q F (Script.fail f : Script scope α) :=
  .step (.fail ⟨h, hfresh⟩)

theorem fault (kind : FaultKind) (text : String) :
    Script.Fails Q IsOrdinary (Script.fault kind text : Script scope α) :=
  .faults (.fault kind text)

theorem failAt (place : Place) (cause : EvalCause) :
    Script.Fails Q IsEvaluation (Script.failAt place cause : Script scope α) :=
  .fail trivial rfl

theorem mono {y : Script scope α} (h : Script.Fails Q F y) (hFG : ∀ f, F f → G f) : Script.Fails Q G y := by
  induction h generalizing G with
  | done => exact .done
  | andThen _ _ ihx ihf => exact .andThen (ihx hFG) fun b => ihf b hFG
  | @act _ _ a h =>
    refine .act ?_
    cases a with
    | step x => exact h.mono fun f hf => ⟨hFG f hf.1, hf.2⟩
    | load | parse => exact fun e => hFG _ (h e)
    | _ => trivial
  | leave => exact .leave
  | read h => exact .read fun e => hFG _ (h e)
  | assign => exact .assign
  | capture _ ih => exact .capture (ih hFG)
  | rethrow inner h raw words =>
    exact .rethrow inner (fun e he => hFG _ (h e he)) (fun e he => hFG _ (raw e he)) words
  | loop _ ih => exact .loop (ih hFG)
  | call h => exact .call fun e => hFG _ (h e)
  | template h => exact .template fun e => hFG _ (h e)
  | block h => exact .block fun e => hFG _ (h e)
  | text h => exact .text fun f hf => hFG _ (h f hf)

theorem isUse {y : Script scope α} (h : Script.Fails Q IsOrdinary y) : Script.Fails Q IsUse y :=
  h.mono fun _ => Failure.IsOrdinary.isUse

end Script.Fails

open Script (Fails)

variable {scope : Scope} {Q : Cells.Invariant}

/-! ### Values as text -/

theorem fails_formattedWithin (n : Nat) (v : Value) :
    Fails Q IsOrdinary (formattedWithin n v : Script scope String) := by
  induction n generalizing v with
  | zero => exact .step .exhausted
  | succ n ih =>
    unfold formattedWithin
    split
    · exact .done
    · refine .bind (.step (Run.fails_objectState _)) fun state => ?_
      split
      · exact .map _ (ih _)
      · exact .fault _ _
      · exact .done
      · exact .done
    · exact .done
    · exact .block fun _ => trivial
    · exact .done
    · exact .done
    · exact .bind (.step Run.fails_allLists) fun _ => .done

theorem fails_formatted (v : Value) : Fails Q IsOrdinary (formatted v : Script scope String) :=
  .bind (.step Run.fails_objectCount) fun _ => fails_formattedWithin _ v

theorem fails_listTextsFrom (r : ListRef) (texts : Array String) (n position : Nat) :
    Fails Q IsOrdinary (listTextsFrom r texts n position : Script scope (List String)) := by
  induction n generalizing texts position with
  | zero => exact .step .exhausted
  | succ n ih =>
    unfold listTextsFrom
    refine .bind (.step (Run.fails_listItems r)) fun items => ?_
    split
    · exact .bind (.text fun _ hf => hf) fun _ => ih _ _
    · exact .done

mutual

theorem fails_textOf : (v : Value) → Fails Q IsOrdinary (textOf v : Script scope String)
  | .null | .bool _ | .range .. => .done
  | .tuple vs | .set vs | .keys vs => .map _ (fails_textsOf vs)
  | .map entries => .map _ (fails_entryTextsOf entries)
  | .list r => .bind (.act trivial) fun n => .map _ (fails_listTextsFrom r #[] n 0)
  | .int _ | .float _ | .str _ | .bytes _ | .stream _ | .loop _ | .block _ | .object .. | .type _
  | .function .. | .getter .. | .day _ | .moment _ | .nan _ => fails_formatted _

theorem fails_textsOf : (vs : List Value) → Fails Q IsOrdinary (textsOf vs : Script scope (List String))
  | [] => .done
  | v :: vs => .bind (fails_textOf v) fun _ => .map _ (fails_textsOf vs)

theorem fails_entryTextsOf : (es : List (Value × Value)) →
    Fails Q IsOrdinary (entryTextsOf es : Script scope (List String))
  | [] => .done
  | (k, v) :: es => .bind (fails_textOf k) fun _ => .bind (fails_textOf v) fun _ =>
    .map _ (fails_entryTextsOf es)

end

theorem fails_hostTextOf (host : HostKind) (v : Value) :
    Fails Q IsOrdinary (host.textOf v : Script scope String) := by
  cases host with
  | standard => exact fails_textOf v
  | shouting => exact .map _ (fails_textOf v)
  | failing => exact .fault _ _

/-! ### Uses of host values -/

theorem fails_callPerson (self : Value) (method : String) (args : List Value) :
    Fails Q IsUse (Object.callPerson self method args : Script scope Value) := by
  have hattribute : ∀ name, Fails Q IsUse (.act (.step (Object.attributeOf self name)) : Script scope Value) :=
    fun name => Script.Fails.isUse (.faults (Object.fails_attributeOf self name))
  have hformatted : ∀ v, Fails Q IsUse (formatted v : Script scope String) := fun v => (fails_formatted v).isUse
  unfold Object.callPerson
  split
  case h_1 => exact .bind (hattribute _) fun _ => .map _ (.step (Object.fails_isFull _))
  case h_2 => exact .bind (hattribute _) fun _ => .bind (hformatted _) fun _ => .map _ (hformatted _)
  case h_5 => exact .map _ (.step (Object.fails_isFull _))
  case h_7 =>
    refine .bind (.step (Run.fails_listItems _)) fun items => ?_
    split
    · exact .done
    · exact (Script.Fails.fault _ _).isUse
  case h_8 => exact Script.Fails.isUse (.faults (Object.fails_noItems _))
  all_goals first
    | exact .done
    | exact .step (Run.fails_newList _)
    | exact .fail trivial trivial
    | exact .bind (hformatted _) fun _ => .fail trivial trivial
    | exact .fail trivial rfl

theorem fails_objectCall (cls : HostClass) (self : Value) (method : String) (args : List Value) :
    Fails Q IsUse (Object.call cls self method args : Script scope Value) := by
  unfold Object.call
  split
  · exact fails_callPerson _ _ _
  · exact .done
  · exact .done
  · exact .done
  · refine .bind (.step (Run.fails_objectState _)) fun state => ?_
    split
    · exact .bind (.step (Run.fails_setObject _ _)) fun _ => .done
    · exact .done
    · exact .done
  · exact .done

theorem fails_methodCall (m : Method) (args : List Value) :
    Fails Q IsUse (m.call args : Script scope Value) := by
  unfold Method.call
  split
  · exact fails_objectCall _ _ _ _
  · exact .bind (.act trivial) fun fuel => Script.Fails.isUse (.faults (Builtin.fails_call _ _ _ _))

theorem fails_propertyOf (v : Value) (name : String) :
    Fails Q IsUse (Host.propertyOf v name : Script scope Value) := by
  unfold Host.propertyOf
  split
  · exact .done
  · split
    · exact (Script.Fails.fault _ _).isUse
    · refine .bind (Script.Fails.isUse (.faults (Host.fails_candidates _ _ _))) fun found => ?_
      split
      · exact .bind (fails_textOf v).isUse fun _ => .fail trivial trivial
      · exact .done
      · exact fails_methodCall _ _
      · exact .done
      · exact .fail trivial trivial

theorem fails_callFunction (cls : HostClass) (name : String) (args : List Value) :
    Fails Q IsUse (Host.callFunction cls name args : Script scope Value) := by
  unfold Host.callFunction
  split
  · exact fails_objectCall _ _ _ _
  · exact .step (Object.fails_make _ _)

theorem fails_callable {m : Member} {sig : Option Signature} {run : List Value → Script scope Value}
    (h : Host.callable? m = some (sig, run)) (args : List Value) : Fails Q IsUse (run args) := by
  unfold Host.callable? at h
  split at h
  · cases h
    exact fails_methodCall _ _
  · cases h
    exact fails_callFunction _ _ _
  · cases h
    exact .step (Object.fails_make _ _)
  · cases h

theorem fails_callMethodOf (v : Value) (name : String) (args : List Value) :
    Fails Q IsUse (Host.callMethodOf v name args : Script scope Value) := by
  unfold Host.callMethodOf
  extract_lets call
  have hcall : ∀ m, Fails Q IsUse (call m) := by
    intro m
    unfold call
    split
    · exact .fail trivial trivial
    · split
      · exact fails_callable ‹_› args
      · exact .bind (fails_textsOf args).isUse fun _ => .fail trivial trivial
  split
  · exact .bind .done hcall
  · exact .bind (Script.Fails.isUse (.faults (Member.fails_find _ _))) hcall

theorem fails_indexSequence (size : Nat) (item : Nat → Value) (key : Value) :
    Fails Q IsUse (Host.indexSequence size item key : Script scope Value) := by
  unfold Host.indexSequence
  split
  · exact .bind (Script.Fails.isUse (.faults (Builtin.fails_smallIndex _))) fun _ =>
      .ofHost (Host.fails_itemAt _ _ _)
  · exact .bind (fails_textOf _).isUse fun _ => .fail trivial trivial

theorem fails_indexOf (v key : Value) : Fails Q IsUse (Host.indexOf v key : Script scope Value) := by
  unfold Host.indexOf
  split
  · exact .bind (.step (Run.fails_listItems _)) fun _ => fails_indexSequence _ _ _
  · exact fails_indexSequence _ _ _
  · exact fails_indexSequence _ _ _
  · exact Script.Fails.isUse (.faults (Builtin.fails_lookup _ _ _))
  · exact fails_callMethodOf _ _ _

/-! ### Operands -/

namespace Failure

variable {f : Failure} {place : Place}

/-- At the place that used the value, an ordinary error becomes an evaluation error. -/
theorem IsOrdinary.at (h : f.IsOrdinary) : (f.at place).IsEvaluation := by
  cases f <;> trivial

/-- In the expression that used the value, an access error becomes an evaluation error too. -/
theorem IsUse.using (h : f.IsUse) (source : String) : (f.using place source).IsEvaluation := by
  cases f <;> trivial

theorem IsRaw.at (h : f.IsRaw) : (f.at place).IsEvaluation := by
  cases f <;> trivial

theorem IsRaw.using (h : f.IsRaw) (source : String) : (f.using place source).IsEvaluation := by
  cases f <;> trivial

theorem rewords_at (place : Place) : Rewords (Failure.at place) where
  keeps _ := rfl
  fresh g hg := by
    cases g with
    | evaluation e => exact absurd trivial hg
    | fault e | resource e => exact rfl
    | access e | parse e => trivial

theorem rewords_using (place : Place) (source : String) : Rewords fun f => f.using place source where
  keeps _ := rfl
  fresh g hg := by
    cases g with
    | access e => exact rfl
    | _ => exact (rewords_at place).fresh _ hg

end Failure

theorem fails_hostText (place : Place) (v : Value) :
    Fails Q IsEvaluation (hostText place v : Script scope String) :=
  .bind (.act trivial) fun host => .rethrow (fails_hostTextOf host v) (fun _ h => h.at) (fun _ h => h.at)
    (Failure.rewords_at place)

theorem fails_shown (place : Place) (v : Value) : Fails Q IsEvaluation (shown place v : Script scope String) := by
  unfold shown
  split
  · exact .done
  · exact .map _ (fails_hostText _ _)

theorem fails_integerOperand (place : Place) (v : Value) :
    Fails Q IsEvaluation (integerOperand place v : Script scope (Option Int)) := by
  unfold integerOperand
  split
  · exact .done
  · exact .done
  · exact .bind (fails_shown _ _) fun _ => .failAt _ _

theorem fails_bound (place : Place) (v : Value) : Fails Q IsEvaluation (bound place v : Script scope Int) := by
  refine .bind (fails_integerOperand place v) fun n => ?_
  split
  · exact .done
  · exact .failAt _ _

theorem fails_equal (place : Place) (a b : Value) :
    Fails Q IsEvaluation (equal place a b : Script scope Bool) := by
  unfold equal
  split
  · exact .done
  · exact .done
  · exact .done
  · split
    · exact .bind (.step Run.fails_allLists) fun _ => .done
    · exact .bind (fails_hostText _ _) fun _ => .map _ (fails_hostText _ _)

theorem fails_operandText (place : Place) (operand : Expr) (v : Value) :
    Fails Q IsEvaluation (operandText place operand v : Script scope String) := by
  unfold operandText
  split
  · exact .act trivial
  · exact fails_hostText _ _

theorem fails_plus (place : Place) (lhs rhs : Expr) (a b : Value) :
    Fails Q IsEvaluation (plus place lhs rhs a b : Script scope Value) := by
  have htext : ∀ a b, Fails Q IsEvaluation (do
      let left ← operandText place lhs a
      let right ← operandText place rhs b
      return .str (left ++ right) : Script scope Value) := fun a b =>
    .bind (fails_operandText _ _ _) fun _ => .map _ (fails_operandText _ _ _)
  unfold plus
  split
  · exact htext _ _
  · exact htext _ _
  · exact .done
  · exact .done
  · exact .done
  · exact .bind (fails_shown _ _) fun _ => .bind (fails_shown _ _) fun _ => .failAt _ _

theorem fails_arithmetic (place : Place) (lhs : Expr) (op : Operator) (rhs : Expr) (a b : Option Int) :
    Fails Q IsEvaluation (arithmetic place lhs op rhs a b : Script scope Value) := by
  unfold arithmetic
  repeat' split
  all_goals first
    | exact .done
    | exact .failAt _ _

/-! ### Directives -/

theorem fails_callMacro (place : Place) (name : String) (args : List Expr) (body : Option (List Node)) :
    Fails Q IsEvaluation (callMacro place name args body : Script scope Unit) := by
  refine .bind (.act trivial) fun m => ?_
  split
  · exact .failAt _ _
  · split
    · exact .call fun _ => trivial
    · exact .failAt _ _

theorem fails_parseDirective (place : Place) (name : Value) :
    Fails Q IsEvaluation (parseDirective place name : Script scope Unit) := by
  unfold parseDirective
  split
  · exact .bind (.act fun _ => trivial) fun t => .template fun _ => trivial
  · exact .failAt _ _
  · exact .failAt _ _

theorem fails_evaluateDirective (place : Place) (source : Value) :
    Fails Q IsEvaluation (evaluateDirective place source : Script scope Unit) := by
  unfold evaluateDirective
  split
  · exact .done
  · exact .bind (.act fun _ => trivial) fun t => .template fun _ => trivial
  · exact .bind (fails_hostText _ _) fun _ => .failAt _ _

/-! ### Trees -/

mutual

theorem fails_evalExpr : (e : Expr) → (lenient : Bool) → Fails Q IsEvaluation (evalExpr scope e lenient)
  | .literal _ _, _ => by
    rw [evalExpr]
    exact .done
  | .binary lhs op rhs, lenient => by
    have hinteger : Fails Q IsEvaluation (do
        let a ← integerOperand lhs.place (← evalExpr scope lhs false)
        let b ← integerOperand rhs.place (← evalExpr scope rhs false)
        arithmetic lhs.place lhs op rhs a b : Script scope Value) :=
      .bind (fails_evalExpr lhs false) fun _ => .bind (fails_integerOperand _ _) fun _ =>
        .bind (fails_evalExpr rhs false) fun _ => .bind (fails_integerOperand _ _) fun _ =>
          fails_arithmetic _ _ _ _ _ _
    rw [evalExpr.eq_def]
    cases op with
    | or =>
      refine .bind (fails_evalExpr lhs lenient) fun a => ?_
      split
      · exact .done
      · exact .map _ (fails_evalExpr rhs lenient)
    | and =>
      refine .bind (fails_evalExpr lhs lenient) fun a => ?_
      split
      · exact .map _ (fails_evalExpr rhs lenient)
      · exact .done
    | equal | notEqual =>
      exact .bind (fails_evalExpr lhs false) fun _ => .bind (fails_evalExpr rhs false) fun _ =>
        .map _ (fails_equal _ _ _)
    | plus =>
      exact .bind (fails_evalExpr lhs false) fun _ => .bind (fails_evalExpr rhs false) fun _ =>
        fails_plus _ _ _ _ _
    | _ => exact hinteger
  | .negation _ e, lenient => by
    rw [evalExpr]
    exact .map _ (fails_evalExpr e lenient)
  | .text _ _ nodes, _ => by
    rw [evalExpr]
    exact .map _ (.capture (fails_renderNodes nodes))
  | .list _ es, _ => by
    rw [evalExpr]
    exact .map _ (fails_evalExprs es)
  | .range _ first last, _ => by
    rw [evalExpr]
    exact .bind (fails_evalExpr first false) fun _ => .bind (fails_bound _ _) fun _ =>
      .bind (fails_evalExpr last false) fun _ => .map _ (fails_bound _ _)
  | .reference place x quiet suffixes, lenient => by
    rw [evalExpr]
    refine .bind (.act trivial) fun found => ?_
    split
    · exact .bind (.read fun _ => trivial) fun v => fails_evalSuffixes place _ _ suffixes v
    · split
      · exact .done
      · exact .failAt _ _

theorem fails_evalExprs : (es : List Expr) → Fails Q IsEvaluation (evalExprs scope es)
  | [] => by
    rw [evalExprs]
    exact .done
  | e :: es => by
    rw [evalExprs]
    exact .bind (fails_evalExpr e false) fun _ => .map _ (fails_evalExprs es)

theorem fails_evalSuffixes (place : Place) (source : List Suffix → String) (before : List Suffix) :
    (suffixes : List Suffix) → (v : Value) →
      Fails Q IsEvaluation (evalSuffixes scope place source before suffixes v)
  | [], v => by
    rw [evalSuffixes]
    exact .done
  | suffix :: rest, v => by
    rw [evalSuffixes.eq_def]
    dsimp only
    split
    · exact .failAt _ _
    · exact .failAt _ _
    · exact .bind (fails_evalSuffix place _ suffix v) fun next => fails_evalSuffixes place _ _ rest next

theorem fails_evalSuffix (place : Place) (source : Unit → String) : (suffix : Suffix) → (v : Value) →
    Fails Q IsEvaluation (evalSuffix scope place source suffix v)
  | .member name, v => by
    rw [evalSuffix]
    exact .rethrow (fails_propertyOf v name) (fun _ h => h.using _) (fun _ h => h.using _)
      (Failure.rewords_using _ _)
  | .method name args, v => by
    rw [evalSuffix]
    exact .bind (fails_evalExprs args) fun args =>
      .rethrow (fails_callMethodOf v name args) (fun _ h => h.using _) (fun _ h => h.using _)
      (Failure.rewords_using _ _)
  | .index key, v => by
    rw [evalSuffix]
    exact .bind (fails_evalExpr key false) fun key =>
      .rethrow (fails_indexOf v key) (fun _ h => h.using _) (fun _ h => h.using _)
      (Failure.rewords_using _ _)

theorem fails_renderNode : (n : Node) → Fails Q IsEvaluation (renderNode scope n)
  | .text _ _ => by
    rw [renderNode]
    exact .act trivial
  | .comment _ => by
    rw [renderNode]
    exact .done
  | .sequence _ nodes => by
    rw [renderNode]
    exact fails_renderNodes nodes
  | .output e => by
    rw [renderNode]
    refine .bind (fails_evalExpr e false) fun v => ?_
    split
    · split
      · exact .done
      · exact .failAt _ _
    · exact .bind (fails_hostText _ _) fun _ => .act trivial
  | .assign x e => by
    rw [renderNode]
    exact .bind (fails_evalExpr e false) fun _ => .assign
  | .choose _ condition yes no => by
    rw [renderNode]
    refine .bind (fails_evalExpr condition true) fun v => ?_
    split
    · exact fails_renderNodes yes
    · exact fails_renderNode no
  | .foreach place x collection body => by
    rw [renderNode]
    refine .bind (fails_evalExpr collection false) fun v => ?_
    split
    · exact .done
    · split
      · exact .loop (fails_renderNodes body)
      · exact .bind (fails_hostText _ _) fun _ => .failAt _ _
  | .leave place => by
    rw [renderNode]
    exact .leave
  | .leaveScope place e => by
    rw [renderNode]
    refine .bind (fails_evalExpr e false) fun v => ?_
    split
    · exact .leave
    · exact .failAt _ _
  | .define _ x body => by
    rw [renderNode]
    exact .bind (.act trivial) fun _ => .assign
  | .call place name args => by
    rw [renderNode]
    exact fails_callMacro _ _ _ _
  | .callWith place name args _ body => by
    rw [renderNode]
    exact fails_callMacro _ _ _ _
  | .parse place e => by
    rw [renderNode]
    exact .bind (fails_evalExpr e false) fun _ => fails_parseDirective _ _
  | .evaluate place e => by
    rw [renderNode]
    exact .bind (fails_evalExpr e false) fun _ => fails_evaluateDirective _ _

theorem fails_renderNodes : (nodes : List Node) → Fails Q IsEvaluation (renderNodes scope nodes)
  | [] => by
    rw [renderNodes]
    exact .done
  | n :: ns => by
    rw [renderNodes]
    exact .bind (fails_renderNode n) fun _ => fails_renderNodes ns

end

end Stencil
