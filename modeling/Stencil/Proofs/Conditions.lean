import Stencil.Proofs.Parts

/-!
# Undefined variables in conditions

In a condition an undefined variable is false where only `||`, `&&` and negations are around it.
`Expr.withFalse` writes the constant false for these variables. Evaluating the condition is evaluating what that
gives like any other expression, as long as nothing is assigned on the way, since then a variable that is
undefined stays so: `Script.sameBindings`. Wherever else an undefined variable is evaluated, the evaluation fails.
-/

namespace Stencil

/-! ### Evaluations that assign nothing -/

/-- Whether an event is an assignment. -/
def Event.assigns : Event → Bool
  | .assign .. => true
  | _ => false

/-- Whether no name is assigned in carrying out a script from a store. -/
def Script.AssignsNothing {scope : Scope} {α : Type} (n : Nat) (y : Script scope α) (s : Store) : Prop :=
  ∀ e ∈ y.events n s, e.assigns = false

namespace Store

/-- Whether the variables, and the calls that are in the first store, are the same in the second. -/
structure SameBindings (s s' : Store) : Prop where
  var : ∀ x r, s'.var x r = s.var x r
  size : s.calls.size ≤ s'.calls.size
  call : ∀ c, c.index < s.calls.size → s'.call c = s.call c

namespace SameBindings

variable {s s' s'' : Store} {scope : Scope}

theorem of_eq (hr : s'.roots = s.roots) (hc : s'.calls = s.calls) : s.SameBindings s' :=
  ⟨fun x r => by rw [Store.var, root_of_eq hr]; rfl, Nat.le_of_eq (by rw [hc]),
    fun c _ => call_of_eq hc c⟩

theorem refl (s : Store) : s.SameBindings s :=
  .of_eq rfl rfl

theorem trans (h : s.SameBindings s') (h' : s'.SameBindings s'') : s.SameBindings s'' := by
  refine ⟨fun x r => (h'.var x r).trans (h.var x r), Nat.le_trans h.size h'.size, fun c hc => ?_⟩
  exact (h'.call c (Nat.lt_of_lt_of_le hc h.size)).trans (h.call c hc)

/-- A name stands for the same in a scope whose calls exist. -/
theorem lookup_eq (h : s.SameBindings s') (hcalls : ∀ c ∈ scope.calls, c.index < s.calls.size) (x : String) :
    s'.lookup scope x = s.lookup scope x := by
  refine lookupIn_congr (fun c hc => ?_) (h.var x scope.root)
  rw [Store.arg, Store.arg, h.call c (hcalls c hc)]
  exact ⟨rfl, rfl⟩

theorem isDefined_eq (h : s.SameBindings s') (hcalls : ∀ c ∈ scope.calls, c.index < s.calls.size) :
    s'.isDefined scope = s.isDefined scope := by
  funext x
  rw [Store.isDefined_eq, Store.isDefined_eq, h.lookup_eq hcalls]

theorem addMacros (s : Store) (r : RootRef) (ms : List MacroDef) : s.SameBindings (s.addMacros r ms) := by
  refine ⟨fun x q => ?_, Nat.le_refl _, fun _ _ => rfl⟩
  rcases Nat.lt_or_ge r.index s.roots.size with hr | hr
  · rw [Store.var, Store.addMacros, root_setRoot hr]
    split
    · rename_i hq
      rw [hq]
      rfl
    · rfl
  · rw [Store.addMacros, setRoot, Heap.set_of_ge _ hr]

/-- Text that is written does not matter. -/
theorem capture {x : Run Unit} (h : SameBindings { s with written := "" } (x.after { s with written := "" })) :
    s.SameBindings ((Run.capture x).after s) := by
  rw [Run.after_capture]
  exact ⟨h.var, h.size, h.call⟩

/-- A call that assigned nothing leaves everything as it was. -/
theorem endCall {m : MacroDef} {args : List Expr} {body : Option (List Node)}
    (h : (s.beginCall scope m args body).2.SameBindings s') :
    s.SameBindings (s'.restoreParams (s.beginCall scope m args body).1) := by
  have hfresh : (s.beginCall scope m args body).1.index < (s.beginCall scope m args body).2.calls.size := by
    rw [beginCall_fst, size_calls_beginCall]
    exact Nat.lt_succ_self _
  have hhidden : (s'.call (s.beginCall scope m args body).1).hidden = [] := by
    rw [h.call _ hfresh, (call_beginCall _).2, beginCall_fst, if_pos rfl]
  have hrestore : s'.restoreParams (s.beginCall scope m args body).1 =
      s'.setCall (s.beginCall scope m args body).1
        { s'.call (s.beginCall scope m args body).1 with hidden := [] } := by
    rw [restoreParams, hhidden]
    rfl
  rw [hrestore]
  have hsize := h.size
  rw [size_calls_beginCall] at hsize
  refine ⟨fun x r => ?_, ?_, fun c hc => ?_⟩
  · refine (h.var x r).trans ?_
    rw [Store.var, root_beginCall]
    rfl
  · simp only [setCall, Heap.size_set]
    omega
  · have hne : c ≠ (s.beginCall scope m args body).1 := by
      rintro rfl
      rw [beginCall_fst] at hc
      exact Nat.lt_irrefl _ hc
    rw [call_setCall_of_ne hne, h.call c (by rw [size_calls_beginCall]; omega), call_beginCall_of_lt hc]

end SameBindings

end Store

namespace Script

variable {scope : Scope} {α β : Type} {n : Nat} {s s' : Store}

theorem AssignsNothing.first {x : Script scope β} {f : β → Script scope α}
    (h : (x >>= f).AssignsNothing n s) : x.AssignsNothing n s := by
  intro e he
  refine h e ?_
  show e ∈ (andThen x f).events n s
  rw [events_andThen]
  exact List.mem_append_left _ he

theorem AssignsNothing.later {x : Script scope β} {f : β → Script scope α} {b : β}
    (h : (x >>= f).AssignsNothing n s) (hx : x.run (Deeper.within n) s = .ok b s') :
    (f b).AssignsNothing n s' := by
  intro e he
  refine h e ?_
  rw [events_bind_ok hx]
  exact List.mem_append_right _ he

/-- What assigns nothing leaves all variables and calls as they were, if that is so one level deeper. -/
theorem sameBindings_step
    (ih : ∀ k, n = k + 1 → ∀ {scope : Scope} {β : Type} (y : Script scope β) (s : Store),
      y.AssignsNothing k s → s.SameBindings ((y.run (Deeper.within k)).after s))
    (y : Script scope α) (s : Store) (h : y.AssignsNothing n s) :
    s.SameBindings ((y.run (Deeper.within n)).after s) := by
  have hrender : ∀ (scope : Scope) (nodes : List Node) (s : Store),
      (∀ e ∈ inside n (renderNodes scope nodes) s, e.assigns = false) →
      s.SameBindings (((Deeper.within n).render scope nodes).after s) := by
    intro scope nodes s h
    cases n with
    | zero => exact .refl s
    | succ k => exact ih k rfl _ s h
  induction y generalizing s with
  | done a => exact .refl s
  | andThen x f ihx ihf =>
    have hx := ihx s h.first
    rw [Run.after] at hx
    rw [run, Run.after_bind]
    cases he : x.run (Deeper.within n) s with
    | error e s₁ =>
      rw [he] at hx
      exact hx
    | ok b s₁ =>
      rw [he] at hx
      exact hx.trans (ihf b s₁ (h.later he))
  | act a =>
    have hframes := a.apart n scope s
    exact .of_eq hframes.roots hframes.calls
  | leave place loopOnly => exact .refl s
  | read x =>
    show s.SameBindings ((Run.read (Deeper.within n) scope x).after s)
    rw [AssignsNothing, events_read] at h
    rw [Run.after, Run.read_eq, ← Run.after]
    cases hb : s.lookup scope x with
    | block b => exact .refl s
    | stored v => exact .refl s
    | argument c t =>
      rw [hb] at h
      cases n with
      | zero => exact .refl s
      | succ k => exact ih k rfl (evalExpr t.scope t.expr false) s h
  | assign x v =>
    have := h (.assign scope x v) (by rw [events_assign]; exact List.mem_singleton.2 rfl)
    cases this
  | capture x ihx =>
    rw [AssignsNothing, events_capture] at h
    exact .capture (ihx _ fun e he => h e (by simp [he]))
  | rethrow f x ihx =>
    rw [AssignsNothing, events_rethrow] at h
    rw [run, Run.after_mapFailure]
    exact ihx s h
  | loop x source body ihb =>
    rw [AssignsNothing, events_loop] at h
    have := h (.assign scope x .null) (by simp)
    cases this
  | call m args body =>
    rw [AssignsNothing, events_call] at h
    rw [run, Run.after_renderMacro]
    exact .endCall (hrender _ _ _ fun e he => h e (by simp [he]))
  | template t =>
    rw [AssignsNothing, events_template] at h
    rw [run, Run.after_renderTemplate]
    exact (Store.SameBindings.addMacros s _ _).trans (hrender _ _ _ fun e he => h e (by simp [he]))
  | block b =>
    rw [AssignsNothing, events_block] at h
    exact .capture (hrender _ _ _ fun e he => h e (by simp [he]))
  | text v =>
    rw [AssignsNothing, events_text] at h
    cases n with
    | zero => exact .refl s
    | succ k => exact ih k rfl (textOf v) s h

/-- What assigns nothing leaves all variables and calls as they were, however it ends. -/
theorem sameBindings (n : Nat) (y : Script scope α) (s : Store) (h : y.AssignsNothing n s) :
    s.SameBindings ((y.run (Deeper.within n)).after s) := by
  induction n generalizing scope α s with
  | zero => exact y.sameBindings_step (fun k h => absurd h (Nat.zero_ne_add_one k)) s h
  | succ n ih =>
    refine y.sameBindings_step (fun k h => ?_) s h
    cases h
    exact ih

end Script

/-! ### Undefined variables as false -/

namespace Expr

/-- The expression with the constant false for the variables in a boolean position that are not defined. -/
def withFalse (defined : String → Bool) : Expr → Expr
  | .binary lhs op rhs =>
    if op.isLogical then .binary (lhs.withFalse defined) op (rhs.withFalse defined) else .binary lhs op rhs
  | .negation place e => .negation place (e.withFalse defined)
  | .reference place x quiet [] =>
    if defined x then .reference place x quiet [] else .literal place (.bool false)
  | e => e

/-- The operands of a condition that are evaluated, in order, each with the store that it is evaluated from:
the parts in a boolean position that are put together by no further `||`, `&&` or negation. -/
def operandsFrom (n : Nat) (scope : Scope) (lenient : Bool) : Expr → Store → List (Expr × Store)
  | .binary lhs op rhs, s =>
    if op.isLogical then
      lhs.operandsFrom n scope lenient s ++
        match (evalExpr scope lhs lenient).run (Deeper.within n) s with
        | .ok a s' => if op.decides a.isTrue then [] else rhs.operandsFrom n scope lenient s'
        | .error _ _ => []
    else [(.binary lhs op rhs, s)]
  | .negation _ e, s => e.operandsFrom n scope lenient s
  | e, s => [(e, s)]

end Expr

section

variable {scope : Scope} {n : Nat} {s s' : Store}

/-- A variable that is not defined is false in a boolean position. -/
theorem run_undefined_lenient {place : Place} {x : String} {quiet : Bool} (d : Deeper)
    (hx : s.isDefined scope x = false) :
    (evalExpr scope (.reference place x quiet []) true).run d s = .ok (.bool false) s := by
  rw [run_evalExpr_reference, hx]
  rfl

/-- Anywhere else a reference to it fails. -/
theorem run_undefined {place : Place} {x : String} {quiet lenient : Bool} {suffixes : List Suffix} (d : Deeper)
    (hx : s.isDefined scope x = false) (hplace : lenient = false ∨ suffixes ≠ []) :
    (evalExpr scope (.reference place x quiet suffixes) lenient).run d s =
      .error (.failure (.evaluation ⟨some place, .undefined x, []⟩)) s := by
  have hstrict : (lenient && suffixes.isEmpty) = false := by
    rcases hplace with rfl | hne
    · rfl
    · simp [hne]
  rw [run_evalExpr_reference, hx, hstrict]
  rfl

/-- What holds where an operand begins holds where the next one begins, if nothing was assigned. -/
theorem Script.AssignsNothing.keeps {α : Type} {x : Script scope α} {a : α} (h : x.AssignsNothing n s)
    (hx : x.run (Deeper.within n) s = .ok a s') (hcalls : ∀ c ∈ scope.calls, c.index < s.calls.size) :
    (∀ c ∈ scope.calls, c.index < s'.calls.size) ∧ s'.isDefined scope = s.isDefined scope := by
  have hsame := x.sameBindings n s h
  rw [Run.after, hx] at hsame
  exact ⟨fun c hc => Nat.lt_of_lt_of_le (hcalls c hc) hsame.size, hsame.isDefined_eq hcalls⟩

theorem evalExpr_lenient_binary {op : Operator} (hop : op.isLogical = false) (lhs rhs : Expr) (lenient : Bool) :
    evalExpr scope (.binary lhs op rhs) lenient = evalExpr scope (.binary lhs op rhs) false := by
  rw [evalExpr.eq_def scope (.binary ..), evalExpr.eq_def scope (.binary ..)]
  cases op with
  | or | and => cases hop
  | _ => rfl

/-- Where an operand is no variable it does not matter whether undefined variables are false. -/
theorem evalExpr_lenient (lenient : Bool) {e : Expr} (hbinary : ∀ lhs op rhs, e ≠ .binary lhs op rhs)
    (hnegation : ∀ place f, e ≠ .negation place f) (href : ∀ place x quiet, e ≠ .reference place x quiet []) :
    evalExpr scope e lenient = evalExpr scope e false := by
  cases e with
  | literal | text | list | range => simp only [evalExpr]
  | negation place f => exact absurd rfl (hnegation place f)
  | binary lhs op rhs => exact absurd rfl (hbinary lhs op rhs)
  | reference place x quiet suffixes =>
    cases suffixes with
    | nil => exact absurd rfl (href place x quiet)
    | cons suffix rest =>
      rw [evalExpr_reference, evalExpr_reference]
      simp

/-- The constant in the place of an undefined variable is as good as the variable in a boolean position. -/
theorem run_withFalse {defined : String → Bool} (e : Expr) {s : Store}
    (hcalls : ∀ c ∈ scope.calls, c.index < s.calls.size) (hdefined : s.isDefined scope = defined)
    (h : (evalExpr scope e true).AssignsNothing n s) :
    (evalExpr scope (e.withFalse defined) false).run (Deeper.within n) s =
      (evalExpr scope e true).run (Deeper.within n) s := by
  induction e using Expr.withFalse.induct defined generalizing s with
  | case1 lhs op rhs hop ihl ihr =>
    rw [Expr.withFalse, if_pos hop, evalExpr_logical hop]
    rw [evalExpr_logical hop] at h ⊢
    refine Run.bind_eq_bind (ihl hcalls hdefined h.first) fun a s' ha => ?_
    obtain ⟨hcalls', hdefined'⟩ := h.first.keeps ha hcalls
    have hrest := h.later ha
    cases hdecides : op.decides a.isTrue with
    | true => simp only [hdecides, if_true]
    | false =>
      simp only [hdecides, Bool.false_eq_true, if_false] at hrest ⊢
      exact Run.bind_eq_bind (ihr hcalls' (hdefined'.trans hdefined) hrest.first) fun _ _ _ => rfl
  | case2 lhs op rhs hop =>
    rw [Expr.withFalse, if_neg hop, evalExpr_lenient_binary (Bool.not_eq_true _ ▸ hop) lhs rhs true]
  | case3 place e ih =>
    rw [Expr.withFalse, evalExpr_negation]
    rw [evalExpr_negation] at h ⊢
    exact Run.bind_eq_bind (ih hcalls hdefined h.first) fun _ _ _ => rfl
  | case4 place x quiet hx =>
    rw [Expr.withFalse, if_pos hx, run_evalExpr_reference, run_evalExpr_reference, hdefined, hx]
    rfl
  | case5 place x quiet hx =>
    rw [Expr.withFalse, if_neg hx]
    have hundefined : s.isDefined scope x = false := by
      rw [hdefined]
      exact Bool.not_eq_true _ ▸ hx
    rw [run_undefined_lenient _ hundefined, evalExpr]
    rfl
  | case6 e hbinary hnegation href =>
    rw [Expr.withFalse.eq_4 _ _ hbinary hnegation href, evalExpr_lenient true hbinary hnegation href]

/-- The same operands are evaluated in the same order, from the same stores. -/
theorem operandsFrom_withFalse {defined : String → Bool} (e : Expr) {s : Store}
    (hcalls : ∀ c ∈ scope.calls, c.index < s.calls.size) (hdefined : s.isDefined scope = defined)
    (h : (evalExpr scope e true).AssignsNothing n s) :
    (e.withFalse defined).operandsFrom n scope false s =
      (e.operandsFrom n scope true s).map fun o => (o.1.withFalse defined, o.2) := by
  induction e using Expr.withFalse.induct defined generalizing s with
  | case1 lhs op rhs hop ihl ihr =>
    rw [evalExpr_logical hop] at h
    rw [Expr.withFalse, if_pos hop, Expr.operandsFrom, if_pos hop, Expr.operandsFrom, if_pos hop,
      List.map_append, ihl hcalls hdefined h.first, run_withFalse lhs hcalls hdefined h.first]
    congr 1
    cases ha : (evalExpr scope lhs true).run (Deeper.within n) s with
    | error e s' => rfl
    | ok a s' =>
      obtain ⟨hcalls', hdefined'⟩ := h.first.keeps ha hcalls
      have hrest := h.later ha
      cases hdecides : op.decides a.isTrue with
      | true => simp [hdecides]
      | false =>
        simp only [hdecides, Bool.false_eq_true, if_false] at hrest ⊢
        exact ihr hcalls' (hdefined'.trans hdefined) hrest.first
  | case2 lhs op rhs hop => simp [Expr.withFalse, hop, Expr.operandsFrom]
  | case3 place e ih =>
    rw [evalExpr_negation] at h
    rw [Expr.withFalse, Expr.operandsFrom, Expr.operandsFrom]
    exact ih hcalls hdefined h.first
  | case4 place x quiet hx => simp [Expr.withFalse, hx, Expr.operandsFrom]
  | case5 place x quiet hx => simp [Expr.withFalse, hx, Expr.operandsFrom]
  | case6 e hbinary hnegation href =>
    have hsame := Expr.withFalse.eq_4 defined e hbinary hnegation href
    rw [hsame, Expr.operandsFrom.eq_3 _ _ _ _ _ hbinary hnegation,
      Expr.operandsFrom.eq_3 _ _ _ _ _ hbinary hnegation]
    simp [hsame]

/-- What is evaluated in a boolean position of an expression was put together with the expression by `||`, `&&`
and negations only, so its operands are operands of the expression. -/
theorem Part.operandsFrom_subset {e f : Expr} {lenient lenient' : Bool}
    (h : Part n scope e lenient s f lenient' s') (hl : lenient' = true) :
    lenient = true ∧ f.operandsFrom n scope true s' ⊆ e.operandsFrom n scope true s := by
  cases h with
  | @left _ op rhs =>
    obtain ⟨hop, rfl⟩ := (Bool.and_eq_true _ _).mp hl
    refine ⟨rfl, fun o ho => ?_⟩
    rw [Expr.operandsFrom, if_pos hop]
    exact List.mem_append_left _ ho
  | undecided hop hlhs ha =>
    subst hl
    refine ⟨rfl, fun o ho => ?_⟩
    rw [Expr.operandsFrom, if_pos hop, hlhs]
    exact List.mem_append_right _ (by simpa [ha] using ho)
  | negated =>
    subst hl
    refine ⟨rfl, fun o ho => ?_⟩
    rwa [Expr.operandsFrom]
  | right | number | element | first | last | argument | key | written => cases hl

theorem Evaluates.operandsFrom_subset {e f : Expr} {lenient' : Bool}
    (h : Evaluates n scope e true s f lenient' s') (hl : lenient' = true) :
    f.operandsFrom n scope true s' ⊆ e.operandsFrom n scope true s := by
  induction h with
  | whole => exact fun _ ho => ho
  | part _ hp ih =>
    obtain ⟨hlenient, hsub⟩ := hp.operandsFrom_subset hl
    exact List.Subset.trans hsub (ih hlenient)

/-- In a condition that assigns nothing, an undefined variable is false in a boolean position: the evaluation
does what that of the condition with the constant false for these variables does without the rule, with the same
operands from the same stores. Any other reference to an undefined variable is an error where it is evaluated,
whether it is a part of the condition or evaluated for a part of it. -/
theorem undefined_is_false_in_conditions (n : Nat) (scope : Scope) (e : Expr) (s : Store)
    (hcalls : ∀ c ∈ scope.calls, c.index < s.calls.size) (h : (evalExpr scope e true).AssignsNothing n s) :
    (evalExpr scope e true).run (Deeper.within n) s =
      (evalExpr scope (e.withFalse (s.isDefined scope)) false).run (Deeper.within n) s ∧
    (e.withFalse (s.isDefined scope)).operandsFrom n scope false s =
      (e.operandsFrom n scope true s).map (fun o => (o.1.withFalse (s.isDefined scope), o.2)) ∧
    (∀ {place : Place} {x : String} {quiet lenient : Bool} {suffixes : List Suffix} {s' : Store},
      Evaluates n scope e true s (.reference place x quiet suffixes) lenient s' →
      s'.isDefined scope x = false →
      (lenient = true ∧ suffixes = [] ∧ (.reference place x quiet [], s') ∈ e.operandsFrom n scope true s) ∨
      ∃ t, (evalExpr scope e true).run (Deeper.within n) s =
        .error (.failure (.evaluation ⟨some place, .undefined x, []⟩)) t) ∧
    (∀ {place : Place} {x : String} {quiet lenient : Bool} {suffixes : List Suffix} {k : Nat} {s' : Store}
        {scope' : Scope} {ls : List Layer},
      Reaches k (evalExpr scope' (.reference place x quiet suffixes) lenient) s' ls n
        (evalExpr scope e true) s →
      s'.isDefined scope' x = false → lenient = false ∨ suffixes ≠ [] →
      ∃ t, (evalExpr scope e true).run (Deeper.within n) s =
        .error (.failure (.evaluation ⟨some place, .undefined x, Layer.steps ls⟩)) t) := by
  have hfails {place : Place} {x : String} {quiet lenient : Bool} {suffixes : List Suffix} {k : Nat}
      {s' : Store} {scope' : Scope} {ls : List Layer}
      (hreach : Reaches k (evalExpr scope' (.reference place x quiet suffixes) lenient) s' ls n
        (evalExpr scope e true) s) (hx : s'.isDefined scope' x = false)
      (hplace : lenient = false ∨ suffixes ≠ []) :
      ∃ t, (evalExpr scope e true).run (Deeper.within n) s =
        .error (.failure (.evaluation ⟨some place, .undefined x, Layer.steps ls⟩)) t := by
    have := hreach.fails_evaluation (run_undefined _ hx hplace)
    rwa [List.append_nil] at this
  refine ⟨(run_withFalse e hcalls rfl h).symm, operandsFrom_withFalse e hcalls rfl h, ?_, hfails⟩
  intro place x quiet lenient suffixes s' heval hx
  cases lenient with
  | false => exact .inr (hfails heval.reaches hx (.inl rfl))
  | true =>
    cases suffixes with
    | cons suffix rest => exact .inr (hfails heval.reaches hx (.inr (List.cons_ne_nil _ _)))
    | nil =>
      refine .inl ⟨rfl, rfl, heval.operandsFrom_subset rfl ?_⟩
      rw [Expr.operandsFrom]
      · exact List.mem_singleton.2 rfl
      all_goals simp

/-- The condition `!$u && ($u == $v || $v)` where `v` is true and `u` is undefined: the first `$u` is false, and
the second one an error. -/
theorem undefined_is_false_in_conditions_negation :
    let p : Place := ⟨none, 1⟩
    let scope : Scope := ⟨[], ⟨0⟩⟩
    let s : Store := { roots := ⟨#[⟨[("v", .bool true)], [], .standard, ⟨0⟩⟩]⟩ }
    let u : Expr := .reference p "u" false []
    let v : Expr := .reference p "v" false []
    let rest : Expr := .binary (.binary u .equal v) .or v
    let condition : Expr := .binary (.negation p u) .and rest
    (evalExpr scope condition true).run (Deeper.within 0) s =
        (evalExpr scope (.binary (.negation p (.literal p (.bool false))) .and rest) false).run (Deeper.within 0) s ∧
      ∃ t, (evalExpr scope condition true).run (Deeper.within 0) s =
        .error (.failure (.evaluation ⟨some p, .undefined "u", []⟩)) t := by
  intro p scope s u v rest condition
  have hevents : ((evalExpr scope condition true).events 0 s).all (!·.assigns) = true := rfl
  have h := undefined_is_false_in_conditions 0 scope condition s (by simp [scope])
    fun e he => by simpa using List.all_eq_true.1 hevents e he
  refine ⟨h.1, ?_⟩
  have hnegation : (evalExpr scope (.negation p u) true).run (Deeper.within 0) s = .ok (.bool true) s := rfl
  have hrest : Evaluates 0 scope condition true s rest true s := .part .whole (.undecided rfl hnegation rfl)
  have hu : Evaluates 0 scope condition true s u false s := .part (.part hrest .left) .left
  exact (h.2.2.1 hu rfl).resolve_left (by simp)

end

end Stencil
