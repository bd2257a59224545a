import Stencil.Proofs.HostScript

/-!
# The names that a tree mentions

`Node.names` lists the variables that a tree mentions anywhere, also between double quotes, in arguments and
in the bodies of directives. What a tree does comes upon no other names, and each template that it loads it
renders at once: `speaks_renderNodes`.
-/

namespace Stencil

mutual

/-- The variables that an expression mentions. -/
def Expr.names : Expr → List String
  | .literal .. => []
  | .binary lhs _ rhs => lhs.names ++ rhs.names
  | .negation _ e => e.names
  | .text _ _ nodes => nodesNames nodes
  | .list _ es => exprsNames es
  | .range _ first last => first.names ++ last.names
  | .reference _ x _ suffixes => x :: suffixesNames suffixes

/-- The variables that expressions mention. -/
def exprsNames : List Expr → List String
  | [] => []
  | e :: es => e.names ++ exprsNames es

/-- The variables that a suffix mentions. -/
def Suffix.names : Suffix → List String
  | .member _ => []
  | .method _ args => exprsNames args
  | .index key => key.names

/-- The variables that suffixes mention. -/
def suffixesNames : List Suffix → List String
  | [] => []
  | s :: ss => s.names ++ suffixesNames ss

/-- The variables that a node mentions: it reads them, assigns them, or loops with them. -/
def Node.names : Node → List String
  | .text .. | .comment _ | .leave _ => []
  | .sequence _ nodes => nodesNames nodes
  | .output e | .leaveScope _ e | .parse _ e | .evaluate _ e => e.names
  | .assign x e => x :: e.names
  | .choose _ condition yes no => condition.names ++ nodesNames yes ++ no.names
  | .foreach _ x collection body => x :: collection.names ++ nodesNames body
  | .define _ x body => x :: nodesNames body
  | .call _ _ args => exprsNames args
  | .callWith _ _ args _ body => exprsNames args ++ nodesNames body

/-- The variables that nodes mention. -/
def nodesNames : List Node → List String
  | [] => []
  | n :: ns => n.names ++ nodesNames ns

end

theorem mem_exprsNames {es : List Expr} {x : String} : x ∈ exprsNames es ↔ ∃ e ∈ es, x ∈ e.names := by
  induction es with
  | nil => simp [exprsNames]
  | cons e es ih => simp [exprsNames, ih]

/-- How a directive comes by a template: by name, or from a text. -/
inductive Loading where
  | byName (place : Place) (name : String)
  | ofText (place : Place) (text : String)

/-- The act that loads the template. -/
def Loading.act : Loading → Act Template
  | byName place name => .load place name
  | ofText place text => .parse place text

/-- Whether an act mentions only variables with a property, and loads no template. -/
def Act.Speaks (P : String → Prop) : {α : Type} → Act α → Prop
  | _, load .. | _, parse .. => False
  | _, defined x => P x
  | _, define body _ => ∀ x ∈ nodesNames body, P x
  | _, _ => True

/-- Scripts that mention only variables with a property, and render each template as soon as they have
loaded it. -/
inductive Script.Speaks (P : String → Prop) {scope : Scope} : {α : Type} → Script scope α → Prop
  | done {α : Type} {a : α} : Script.Speaks P (.done a)
  | andThen {α β : Type} {y : Script scope β} {f : β → Script scope α} (first : Script.Speaks P y)
      (second : ∀ b, Script.Speaks P (f b)) : Script.Speaks P (.andThen y f)
  | act {α : Type} {a : Act α} (h : a.Speaks P) : Script.Speaks P (.act a)
  | directive (l : Loading) : Script.Speaks P (.andThen (.act l.act) .template)
  | leave {α : Type} {place : Place} {loopOnly : Bool} :
      Script.Speaks P (.leave place loopOnly : Script scope α)
  | read {x : String} (h : P x) : Script.Speaks P (.read x)
  | assign {x : String} {v : Value} (h : P x) : Script.Speaks P (.assign x v)
  | capture {y : Script scope Unit} (inner : Script.Speaks P y) : Script.Speaks P (.capture y)
  | rethrow {α : Type} {f : Failure → Failure} {y : Script scope α} (inner : Script.Speaks P y) :
      Script.Speaks P (.rethrow f y)
  | loop {x : String} {source : Source} {body : Script scope Unit} (h : P x)
      (inner : Script.Speaks P body) : Script.Speaks P (.loop x source body)
  | call {m : MacroDef} {args : List Expr} {body : Option (List Node)} (ha : ∀ x ∈ exprsNames args, P x)
      (hb : ∀ nodes ∈ body, ∀ x ∈ nodesNames nodes, P x) : Script.Speaks P (.call m args body)
  | block {b : BlockRef} : Script.Speaks P (.block b)
  | text {v : Value} : Script.Speaks P (.text v)

namespace Script

variable {P : String → Prop} {scope : Scope} {α β : Type}

namespace Speaks

theorem bind {y : Script scope β} {f : β → Script scope α} (hy : y.Speaks P)
    (hf : ∀ b, (f b).Speaks P) : (y >>= f).Speaks P :=
  .andThen hy hf

theorem map {y : Script scope β} (f : β → α) (hy : y.Speaks P) :
    (y >>= fun b => Pure.pure (f b)).Speaks P :=
  .andThen hy fun _ => .done

theorem failAt (place : Place) (cause : EvalCause) : (failAt place cause : Script scope α).Speaks P :=
  .act trivial

end Speaks

/-- Using the host mentions no variable. -/
theorem OfHost.speaks {y : Script scope α} (h : y.OfHost) : y.Speaks P := by
  induction h with
  | done => exact .done
  | andThen _ _ ihx ihf => exact .andThen ihx ihf
  | @act _ a h =>
    refine .act ?_
    cases a with
    | step | fuel | host | source => trivial
    | _ => exact h.elim
  | rethrow _ ih => exact .rethrow ih
  | block => exact .block
  | text => exact .text

end Script

open Script (Speaks)

variable {P : String → Prop} {scope : Scope}

/-! ### Directives -/

theorem speaks_callMacro (place : Place) (name : String) {args : List Expr} {body : Option (List Node)}
    (ha : ∀ x ∈ exprsNames args, P x) (hb : ∀ nodes ∈ body, ∀ x ∈ nodesNames nodes, P x) :
    (callMacro place name args body : Script scope Unit).Speaks P := by
  refine .bind (.act trivial) fun m => ?_
  split
  · exact .failAt _ _
  · split
    · exact .call ha hb
    · exact .failAt _ _

theorem speaks_parseDirective (place : Place) (name : Value) :
    (parseDirective place name : Script scope Unit).Speaks P := by
  unfold parseDirective
  split
  · exact .directive (.byName place _)
  · exact .failAt _ _
  · exact .failAt _ _

theorem speaks_evaluateDirective (place : Place) (source : Value) :
    (evaluateDirective place source : Script scope Unit).Speaks P := by
  unfold evaluateDirective
  split
  · exact .done
  · exact .directive (.ofText place _)
  · exact .bind (ofHost_hostText _ _).speaks fun _ => .failAt _ _

/-! ### Trees -/

mutual

/-- Evaluating an expression mentions the variables that the expression mentions. -/
theorem speaks_evalExpr : (e : Expr) → (lenient : Bool) → (∀ x ∈ e.names, P x) →
    (evalExpr scope e lenient).Speaks P
  | .literal _ _, _, _ => by
    rw [evalExpr]
    exact .done
  | .binary lhs op rhs, lenient, h => by
    rw [Expr.names, List.forall_mem_append] at h
    have hl := fun lenient => speaks_evalExpr lhs lenient h.1
    have hr := fun lenient => speaks_evalExpr rhs lenient h.2
    have hinteger : Speaks P (do
        let a ← integerOperand lhs.place (← evalExpr scope lhs false)
        let b ← integerOperand rhs.place (← evalExpr scope rhs false)
        arithmetic lhs.place lhs op rhs a b : Script scope Value) :=
      .bind (hl false) fun _ => .bind (ofHost_integerOperand _ _).speaks fun _ =>
        .bind (hr false) fun _ => .bind (ofHost_integerOperand _ _).speaks fun _ =>
          (ofHost_arithmetic _ _ _ _ _ _).speaks
    rw [evalExpr.eq_def]
    cases op with
    | or =>
      refine .bind (hl lenient) fun a => ?_
      split
      · exact .done
      · exact .map _ (hr lenient)
    | and =>
      refine .bind (hl lenient) fun a => ?_
      split
      · exact .map _ (hr lenient)
      · exact .done
    | equal | notEqual =>
      exact .bind (hl false) fun _ => .bind (hr false) fun _ => .map _ (ofHost_equal _ _ _).speaks
    | plus => exact .bind (hl false) fun _ => .bind (hr false) fun _ => (ofHost_plus _ _ _ _ _).speaks
    | _ => exact hinteger
  | .negation _ e, lenient, h => by
    rw [evalExpr]
    exact .map _ (speaks_evalExpr e lenient h)
  | .text _ _ nodes, _, h => by
    rw [evalExpr]
    exact .map _ (.capture (speaks_renderNodes nodes h))
  | .list _ es, _, h => by
    rw [evalExpr]
    exact .map _ (speaks_evalExprs es h)
  | .range _ first last, _, h => by
    rw [Expr.names, List.forall_mem_append] at h
    rw [evalExpr]
    exact .bind (speaks_evalExpr first false h.1) fun _ => .bind (ofHost_bound _ _).speaks fun _ =>
      .bind (speaks_evalExpr last false h.2) fun _ => .map _ (ofHost_bound _ _).speaks
  | .reference place x quiet suffixes, lenient, h => by
    rw [Expr.names, List.forall_mem_cons] at h
    rw [evalExpr]
    refine .bind (.act h.1) fun found => ?_
    split
    · exact .bind (.read h.1) fun v => speaks_evalSuffixes place _ _ suffixes v h.2
    · split
      · exact .done
      · exact .failAt _ _

theorem speaks_evalExprs : (es : List Expr) → (∀ x ∈ exprsNames es, P x) → (evalExprs scope es).Speaks P
  | [], _ => by
    rw [evalExprs]
    exact .done
  | e :: es, h => by
    rw [exprsNames, List.forall_mem_append] at h
    rw [evalExprs]
    exact .bind (speaks_evalExpr e false h.1) fun _ => .map _ (speaks_evalExprs es h.2)

theorem speaks_evalSuffixes (place : Place) (source : List Suffix → String) (before : List Suffix) :
    (suffixes : List Suffix) → (v : Value) → (∀ x ∈ suffixesNames suffixes, P x) →
      (evalSuffixes scope place source before suffixes v).Speaks P
  | [], v, _ => by
    rw [evalSuffixes]
    exact .done
  | suffix :: rest, v, h => by
    rw [suffixesNames, List.forall_mem_append] at h
    rw [evalSuffixes.eq_def]
    dsimp only
    split
    · exact .failAt _ _
    · exact .failAt _ _
    · exact .bind (speaks_evalSuffix place _ suffix v h.1) fun next =>
        speaks_evalSuffixes place _ _ rest next h.2

theorem speaks_evalSuffix (place : Place) (source : Unit → String) : (suffix : Suffix) → (v : Value) →
    (∀ x ∈ suffix.names, P x) → (evalSuffix scope place source suffix v).Speaks P
  | .member name, v, _ => by
    rw [evalSuffix]
    exact .rethrow (ofHost_propertyOf v name).speaks
  | .method name args, v, h => by
    rw [evalSuffix]
    exact .bind (speaks_evalExprs args h) fun args => .rethrow (ofHost_callMethodOf v name args).speaks
  | .index key, v, h => by
    rw [evalSuffix]
    exact .bind (speaks_evalExpr key false h) fun key => .rethrow (ofHost_indexOf v key).speaks

/-- Rendering a node mentions the variables that the node mentions. -/
theorem speaks_renderNode : (n : Node) → (∀ x ∈ n.names, P x) → (renderNode scope n).Speaks P
  | .text _ _, _ => by
    rw [renderNode]
    exact .act trivial
  | .comment _, _ => by
    rw [renderNode]
    exact .done
  | .sequence _ nodes, h => by
    rw [renderNode]
    exact speaks_renderNodes nodes h
  | .output e, h => by
    rw [renderNode]
    refine .bind (speaks_evalExpr e false h) fun v => ?_
    split
    · split
      · exact .done
      · exact .failAt _ _
    · exact .bind (ofHost_hostText _ _).speaks fun _ => .act trivial
  | .assign x e, h => by
    rw [Node.names, List.forall_mem_cons] at h
    rw [renderNode]
    exact .bind (speaks_evalExpr e false h.2) fun _ => .assign h.1
  | .choose _ condition yes no, h => by
    rw [Node.names, List.forall_mem_append, List.forall_mem_append] at h
    rw [renderNode]
    refine .bind (speaks_evalExpr condition true h.1.1) fun v => ?_
    split
    · exact speaks_renderNodes yes h.1.2
    · exact speaks_renderNode no h.2
  | .foreach place x collection body, h => by
    rw [Node.names, List.cons_append, List.forall_mem_cons, List.forall_mem_append] at h
    rw [renderNode]
    refine .bind (speaks_evalExpr collection false h.2.1) fun v => ?_
    split
    · exact .done
    · split
      · exact .loop h.1 (speaks_renderNodes body h.2.2)
      · exact .bind (ofHost_hostText _ _).speaks fun _ => .failAt _ _
  | .leave place, _ => by
    rw [renderNode]
    exact .leave
  | .leaveScope place e, h => by
    rw [renderNode]
    refine .bind (speaks_evalExpr e false h) fun v => ?_
    split
    · exact .leave
    · exact .failAt _ _
  | .define _ x body, h => by
    rw [Node.names, List.forall_mem_cons] at h
    rw [renderNode]
    exact .bind (.act h.2) fun b => .assign h.1
  | .call place name args, h => by
    rw [renderNode]
    exact speaks_callMacro place name h (fun _ hnodes => by cases hnodes)
  | .callWith place name args _ body, h => by
    rw [Node.names, List.forall_mem_append] at h
    rw [renderNode]
    refine speaks_callMacro place name h.1 fun nodes hnodes => ?_
    obtain rfl := Option.mem_some.1 hnodes
    exact h.2
  | .parse place e, h => by
    rw [renderNode]
    exact .bind (speaks_evalExpr e false h) fun _ => speaks_parseDirective _ _
  | .evaluate place e, h => by
    rw [renderNode]
    exact .bind (speaks_evalExpr e false h) fun _ => speaks_evaluateDirective _ _

/-- Rendering nodes mentions the variables that they mention. -/
theorem speaks_renderNodes : (ns : List Node) → (∀ x ∈ nodesNames ns, P x) →
    (renderNodes scope ns).Speaks P
  | [], _ => by
    rw [renderNodes]
    exact .done
  | n :: ns, h => by
    rw [nodesNames, List.forall_mem_append] at h
    rw [renderNodes]
    exact .bind (speaks_renderNode n h.1) fun _ => speaks_renderNodes ns h.2

end

end Stencil
