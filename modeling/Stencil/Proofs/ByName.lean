import Stencil.Proofs.Parameters

/-!
# Conditions on a parameter

A condition of a macro body that is made of one parameter does what the condition with the argument in its
place does in the scope of the caller: `Condition.run_param`. The argument is evaluated there as it is outside
conditions, so an undefined variable in it is an error and not false: `condition_by_name`.
-/

namespace Stencil

/-- A condition that puts one operand together with itself by `||`, `&&` and negations. Where the operand is a
reference it has a place each time, and may be quiet. -/
inductive Condition where
  | operand (place : Place) (quiet : Bool)
  | negation (place : Place) (condition : Condition)
  | join (op : Operator) (logical : op.isLogical = true) (lhs rhs : Condition)

namespace Condition

/-- The condition with operands of any form. -/
def fill (operand : Place → Bool → Expr) : Condition → Expr
  | .operand place quiet => operand place quiet
  | .negation place b => .negation place (b.fill operand)
  | .join op _ lhs rhs => .binary (lhs.fill operand) op (rhs.fill operand)

/-- The condition on a variable. -/
def on (b : Condition) (x : String) : Expr :=
  b.fill fun place quiet => .reference place x quiet []

/-- The condition with an expression in the place of the variable. -/
def of (b : Condition) (e : Expr) : Expr :=
  b.fill fun _ _ => e

end Condition

section

variable {caller scope : Scope} {p : String} {e : Expr} {c : CallRef} {k n : Nat} {s : Store}

/-- In a macro body a condition on a parameter is evaluated as the condition on the argument in the scope of the
caller, one level deeper. -/
theorem Condition.run_param (b : Condition) {lenient : Bool}
    (h : InCall caller p e c (k + 1) (evalExpr (caller.enter c) (b.on p) lenient) s) :
    (evalExpr (caller.enter c) (b.on p) lenient).run (Deeper.within (k + 1)) s =
      (evalExpr caller (b.of e) false).run (Deeper.within k) s := by
  induction b generalizing s with
  | operand place quiet => exact h.run_reference k place quiet lenient
  | negation place b ih =>
    change InCall caller p e c (k + 1) (evalExpr (caller.enter c) (.negation place (b.on p)) lenient) s at h
    show (evalExpr (caller.enter c) (.negation place (b.on p)) lenient).run _ s =
      (evalExpr caller (.negation place (b.of e)) false).run _ s
    rw [evalExpr_negation] at h ⊢
    rw [evalExpr_negation]
    exact Run.bind_eq_bind (ih (h.trans (.first .here))) fun _ _ _ => rfl
  | join op hop lhs rhs ihl ihr =>
    change InCall caller p e c (k + 1) (evalExpr (caller.enter c) (.binary (lhs.on p) op (rhs.on p)) lenient) s
      at h
    show (evalExpr (caller.enter c) (.binary (lhs.on p) op (rhs.on p)) lenient).run _ s =
      (evalExpr caller (.binary (lhs.of e) op (rhs.of e)) false).run _ s
    rw [evalExpr_logical hop] at h ⊢
    rw [evalExpr_logical hop]
    have hlhs := ihl (h.trans (.first .here))
    refine Run.bind_eq_bind hlhs fun a s' ha => ?_
    rw [← hlhs] at ha
    have hrest := h.trans (.later ha .here)
    cases hdecides : op.decides a.isTrue with
    | true =>
      simp only [hdecides, if_true]
      rfl
    | false =>
      simp only [hdecides, Bool.false_eq_true, if_false] at hrest ⊢
      exact Run.bind_eq_bind (ihr (hrest.trans (.first .here))) fun _ _ _ => rfl

end

/-! ### Undefined variables in the argument -/

namespace Run

variable {α β : Type}

/-- Whether a step stops with an error for an undefined variable. -/
def StopsUndefined (x : Run α) (s : Store) : Prop :=
  ∃ place y s', x s = .error (.failure (.evaluation ⟨some place, .undefined y, []⟩)) s'

/-- Sequences end alike, unless the first stops for an undefined variable, if their steps do. -/
theorem bind_eq_or_stops {x y : Run β} {f g : β → Run α} {s : Store}
    (hx : x s = y s ∨ x.StopsUndefined s)
    (hf : ∀ b s', y s = .ok b s' → f b s' = g b s' ∨ (f b).StopsUndefined s') :
    (x >>= f) s = (y >>= g) s ∨ (x >>= f).StopsUndefined s := by
  rcases hx with hx | ⟨place, z, s', hx⟩
  · cases hy : y s with
    | error e s' => exact .inl (bind_eq_bind hx fun _ _ hok => absurd (hok.symm.trans hy) (by simp))
    | ok b s' =>
      rw [hy] at hx
      rcases hf b s' hy with hfb | ⟨place, z, s'', hfb⟩
      · exact .inl ((bind_ok hx).trans (hfb.trans (bind_ok hy).symm))
      · exact .inr ⟨place, z, s'', (bind_ok hx).trans hfb⟩
  · exact .inr ⟨place, z, s', bind_eq_error.2 (.inl hx)⟩

end Run

/-- Outside a condition an expression is evaluated as in a condition, or stops for an undefined variable. -/
theorem strict_eq_or_stops (scope : Scope) (d : Deeper) (e : Expr) (s : Store) :
    (evalExpr scope e false).run d s = (evalExpr scope e true).run d s ∨
      ((evalExpr scope e false).run d).StopsUndefined s := by
  -- The cases are those of an expression with what is not defined replaced; nothing is replaced here.
  induction e using Expr.withFalse.induct (fun _ => true) generalizing s with
  | case1 lhs op rhs hop ihl ihr =>
    rw [evalExpr_logical hop, evalExpr_logical hop]
    refine Run.bind_eq_or_stops (ihl s) fun a s' _ => ?_
    cases hdecides : op.decides a.isTrue with
    | true =>
      simp only [hdecides, if_true]
      exact .inl trivial
    | false =>
      simp only [hdecides, Bool.false_eq_true, if_false]
      exact Run.bind_eq_or_stops (ihr s') fun _ _ _ => .inl rfl
  | case2 lhs op rhs hop =>
    exact .inl (by rw [evalExpr_lenient_binary (Bool.not_eq_true _ ▸ hop) lhs rhs true])
  | case3 place e ih =>
    rw [evalExpr_negation, evalExpr_negation]
    exact Run.bind_eq_or_stops (ih s) fun _ _ _ => .inl rfl
  | case4 place x quiet =>
    cases hx : s.isDefined scope x with
    | true =>
      rw [run_evalExpr_reference, run_evalExpr_reference, hx]
      exact .inl rfl
    | false => exact .inr ⟨place, x, s, run_undefined d hx (.inl rfl)⟩
  | case5 place x quiet hx => exact absurd rfl hx
  | case6 e hbinary hnegation href => exact .inl (by rw [evalExpr_lenient true hbinary hnegation href])

/-- A condition on an undefined variable stops for it, unless undefined variables are false. -/
theorem Condition.run_of_undefined (b : Condition) {scope : Scope} {d : Deeper} {place : Place} {x : String}
    {quiet : Bool} {s : Store} (hx : s.isDefined scope x = false) :
    (evalExpr scope (b.of (.reference place x quiet [])) false).run d s =
      .error (.failure (.evaluation ⟨some place, .undefined x, []⟩)) s := by
  induction b with
  | operand => exact run_undefined d hx (.inl rfl)
  | negation p b ih =>
    show (evalExpr scope (.negation p (b.of _)) false).run d s = _
    rw [evalExpr_negation]
    exact Run.bind_eq_error.2 (.inl ih)
  | join op hop lhs rhs ihl _ =>
    show (evalExpr scope (.binary (lhs.of _) op (rhs.of _)) false).run d s = _
    rw [evalExpr_logical hop]
    exact Run.bind_eq_error.2 (.inl ihl)

/-! ### Directives with such a condition -/

/-- In a macro body an `#if` with a condition on a parameter takes the branch, or fails with the error, of the
condition on the argument in the scope of the caller, where it is evaluated at that moment as outside conditions.
That is what it would give in a condition, unless it stops for an undefined variable; so an argument that is an
undefined variable is an error. -/
theorem condition_by_name (caller : Scope) (p : String) (e : Expr) (c : CallRef) (k : Nat) (place : Place)
    (b : Condition) (yes : List Node) (no : Node) (s : Store)
    (h : InCall caller p e c (k + 1) (renderNode (caller.enter c) (.choose place (b.on p) yes no)) s) :
    (renderNode (caller.enter c) (.choose place (b.on p) yes no)).run (Deeper.within (k + 1)) s =
      (do
        let v ← (evalExpr caller (b.of e) false).run (Deeper.within k)
        (if v.isTrue then renderNodes (caller.enter c) yes else renderNode (caller.enter c) no).run
          (Deeper.within (k + 1))) s ∧
    ((evalExpr caller (b.of e) false).run (Deeper.within k) s =
        (evalExpr caller (b.of e) true).run (Deeper.within k) s ∨
      ∃ place' y t, (evalExpr caller (b.of e) false).run (Deeper.within k) s =
        .error (.failure (.evaluation ⟨some place', .undefined y, []⟩)) t) ∧
    (∀ place' x quiet, e = .reference place' x quiet [] → s.isDefined caller x = false →
      (renderNode (caller.enter c) (.choose place (b.on p) yes no)).run (Deeper.within (k + 1)) s =
        .error (.failure (.evaluation ⟨some place', .undefined x, []⟩)) s) := by
  rw [renderNode] at h ⊢
  have hcondition := b.run_param (h.trans (.first .here))
  refine ⟨Run.bind_eq_bind hcondition fun v s' _ => rfl, strict_eq_or_stops caller _ (b.of e) s, ?_⟩
  rintro place' x quiet rfl hx
  exact Run.bind_eq_error.2 (.inl (hcondition.trans (b.run_of_undefined hx)))

/-- The body `#if(!$p)yes#{else}no#end` of a macro, for an argument that is an undefined variable and for one that
is null. -/
theorem condition_by_name_negation :
    let place : Place := ⟨none, 1⟩
    let caller : Scope := ⟨[], ⟨0⟩⟩
    let node : Node := .choose place ((Condition.negation place (.operand place false)).on "p")
      [.text place "yes"] (.text place "no")
    let m : MacroDef := ⟨place, "m", ["p"], [node]⟩
    let s₀ : Store := (Store.enterRoot {} ⟨[("v", .null)], [m], .standard, ⟨0⟩⟩).2
    let start (x : String) : Store := (s₀.beginCall caller m [.reference place x false []] none).2
    (renderNode (caller.enter ⟨0⟩) node).run (Deeper.within 1) (start "u") =
        .error (.failure (.evaluation ⟨some place, .undefined "u", []⟩)) (start "u") ∧
      (renderNode (caller.enter ⟨0⟩) node).run (Deeper.within 1) (start "v") =
        .ok () { start "v" with written := "yes" } := by
  intro place caller node m s₀ start
  obtain ⟨hsound, hvalid⟩ := Store.sound_empty.enterRoot ⟨[("v", .null)], [m], .standard, ⟨0⟩⟩
  have hcall (x : String) (hspared : Spared "p" ⟨0⟩ ((renderNodes (caller.enter ⟨0⟩) m.body).events 1 (start x))) :
      InCall caller "p" (.reference place x false []) ⟨0⟩ 1 (renderNode (caller.enter ⟨0⟩) node) (start x) :=
    ⟨hsound, hvalid, rfl, fun h => absurd h (by decide), rfl, .first .here, hspared⟩
  have hundefined := condition_by_name caller "p" _ ⟨0⟩ 0 place (.negation place (.operand place false))
    [.text place "yes"] (.text place "no") (start "u") (hcall "u" (spared_of_assigns rfl))
  have hnull := condition_by_name caller "p" _ ⟨0⟩ 0 place (.negation place (.operand place false))
    [.text place "yes"] (.text place "no") (start "v") (hcall "v" (spared_of_assigns rfl))
  exact ⟨hundefined.2.2 place "u" false rfl rfl, hnull.1⟩

/-- How an evaluation of some nodes and macros stops, or the text that it gives. -/
def outcome (nodes : List Node) (macros : List MacroDef) : Halt ⊕ String :=
  match Template.evaluateWithin 4 ⟨0, ⟨⟨none, 1⟩, nodes, macros⟩, ⟨0⟩⟩ [] .standard {} with
  | .ok text _ => .inr text
  | .error e _ => .inl e

/-- A condition on a parameter is not always the condition on the argument. An argument that is an undefined
variable is an error. A parameter of the name of blocks is the block in a call that is given one. A macro that
the body calls may assign the parameter. -/
theorem condition_by_name_not_transparent :
    let place : Place := ⟨none, 1⟩
    let ifElse (e : Expr) : Node := .choose place e [.text place "yes"] (.text place "no")
    let var (x : String) : Expr := .reference place x false []
    let off : Expr := .literal place (.bool false)
    let m (p : String) (before : List Node) : MacroDef := ⟨place, "m", [p], before ++ [ifElse (var p)]⟩
    let assigning : MacroDef := ⟨place, "n", [], [.assign "p" (.literal place (.bool true))]⟩
    (outcome [.call place "m" [var "u"]] [m "p" []] =
          .inl (.failure (.evaluation ⟨some place, .undefined "u", [⟨"m", 1⟩]⟩)) ∧
        outcome [ifElse (var "u")] [] = .inr "no") ∧
      (outcome [.callWith place "m" [off] 1 [.text place "b"]] [m bodyContent []] = .inr "yes" ∧
        outcome [ifElse off] [] = .inr "no") ∧
      outcome [.call place "m" [off]] [m "p" [.call place "n" []], assigning] = .inr "yes" := by
  decide +kernel

end Stencil
