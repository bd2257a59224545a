import Stencil.Proofs.Binding
import Stencil.Proofs.Script

/-!
# Where a break ends

`Raises` says how a break gets out of an evaluation: it begins at a `#break`, passes everything that is
under way, and has no rule for the body of a loop and none for a template unless it is meant for a loop.
`Script.run_eq_leave_iff` says that this is exactly when an evaluation stops with a break.
-/

namespace Stencil

namespace Run

variable {α β : Type}

/-- Whether a step never stops with a break. -/
def Unbroken (x : Run α) : Prop :=
  ∀ s p b s', x s ≠ .error (.leave p b) s'

theorem Unbroken.pure (a : α) : Unbroken (Pure.pure a) := by
  intro s p b s' h
  cases h

theorem Unbroken.get : Unbroken (get : Run Store) := by
  intro s p b s' h
  cases h

theorem Unbroken.modifyGet (f : Store → α × Store) : Unbroken (modifyGet f : Run α) := by
  intro s p b s' h
  cases h

theorem Unbroken.fail (f : Failure) : Unbroken (fail f : Run α) := by
  intro s p b s' h
  cases h

theorem Unbroken.exhausted : Unbroken (exhausted : Run α) := by
  intro s p b s' h
  cases h

theorem Unbroken.bind {x : Run β} {f : β → Run α} (hx : Unbroken x) (hf : ∀ b, Unbroken (f b)) :
    Unbroken (x >>= f) := by
  intro s p b s' h
  rcases bind_eq_error.1 h with h | ⟨a, s₁, -, h⟩
  · exact hx _ _ _ _ h
  · exact hf _ _ _ _ _ h

theorem Unbroken.toRun (x : Step α) : Unbroken x.toRun := by
  intro s p b s' h
  rw [Step.toRun] at h
  cases hx : x s.toCells with
  | ok a cells => simp [hx] at h
  | error e cells => cases e <;> simp [hx, Stop.halt] at h

theorem mapFailure_eq_leave {f : Failure → Failure} {x : Run α} {s s' : Store} {p : Place} {b : Bool} :
    mapFailure f x s = .error (.leave p b) s' ↔ x s = .error (.leave p b) s' := by
  rw [mapFailure]
  rcases hx : x s with ⟨a, s₁⟩ | ⟨h, s₁⟩
  · simp
  · cases h <;> simp

theorem Unbroken.mapFailure {x : Run α} (f : Failure → Failure) (hx : Unbroken x) :
    Unbroken (mapFailure f x) :=
  fun s p b s' h => hx s p b s' (mapFailure_eq_leave.1 h)

theorem Unbroken.ofResource (x : Except ResourceError α) : Unbroken (ofResource x) := by
  cases x with
  | ok a => exact .pure a
  | error e => exact .fail _

theorem Unbroken.openText (opener : Opener) (name : String) : Unbroken (openText opener name) := by
  cases opener with
  | noNames => exact .fail _
  | texts =>
    refine .bind (.modifyGet _) fun _ => .bind .get fun s => ?_
    split
    · exact .pure _
    · exact .fail _
  | files root encoding => exact .bind .get fun s => .ofResource _

theorem Unbroken.parseText (r : LoaderRef) (resource : Option String) (text : String) :
    Unbroken (parseText r resource text) := by
  rw [Run.parseText]
  split
  · exact .bind (.modifyGet _) fun id => .pure _
  · exact .fail _
  · exact .exhausted

theorem Unbroken.load (r : LoaderRef) (name : String) : Unbroken (load r name) := by
  have hloader (r : LoaderRef) : Unbroken (loader r) := .bind .get fun _ => .pure _
  refine .bind (hloader r) fun l => ?_
  split
  · exact .pure _
  · refine .bind ?_ fun t => .bind (hloader r) fun l => .bind (.modifyGet _) fun _ => .pure _
    exact .bind (hloader r) fun l => .bind (.openText _ _) fun text => .parseText _ _ _

end Run

open Run (Unbroken)

/-- An act never stops with a break. -/
theorem Act.unbroken (fuel : Nat) (scope : Scope) {α : Type} (a : Act α) :
    Unbroken (a.run fuel scope) := by
  have hloader : Unbroken (Run.loaderOf scope) := .bind .get fun _ => .pure _
  cases a with
  | step x => exact .toRun x
  | fuel => exact .pure _
  | host => exact .bind .get fun _ => .pure _
  | source e => exact .pure _
  | find name => exact .bind .get fun _ => .pure _
  | defined x => exact .bind .get fun _ => .pure _
  | define body origin => exact .bind (.toRun _) fun _ => .bind (.modifyGet _) fun _ => .pure _
  | write text => exact .modifyGet _
  | load place name => exact .mapFailure _ (.bind hloader fun r => .load r name)
  | parse place text => exact .mapFailure _ (.bind hloader fun r => .parseText _ _ _)

namespace Deeper

variable {n : Nat} {s s' : Store} {p : Place} {b : Bool}

theorem eval_eq_leave_iff {scope : Scope} {e : Expr} :
    (within n).eval scope e s = .error (.leave p b) s' ↔
      ∃ k, n = k + 1 ∧ (evalExpr scope e false).run (within k) s = .error (.leave p b) s' := by
  cases n with
  | zero => simpa using Unbroken.exhausted s p b s'
  | succ k => simp

theorem render_eq_leave_iff {scope : Scope} {nodes : List Node} :
    (within n).render scope nodes s = .error (.leave p b) s' ↔
      ∃ k, n = k + 1 ∧ (renderNodes scope nodes).run (within k) s = .error (.leave p b) s' := by
  cases n with
  | zero => simpa using Unbroken.exhausted s p b s'
  | succ k => simp

theorem text_eq_leave_iff {v : Value} :
    (within n).text v s = .error (.leave p b) s' ↔
      ∃ k, n = k + 1 ∧
        (textOf v : Script default String).run (within k) s = .error (.leave p b) s' := by
  cases n with
  | zero => simpa using Unbroken.exhausted s p b s'
  | succ k => simp

end Deeper

namespace Run

variable {s s' : Store} {p : Place} {b : Bool}

theorem andThen_eq_leave_iff {α : Type} {x : Run α} {after : Store → Store} :
    andThen x after s = .error (.leave p b) s' ↔
      ∃ s₁, x s = .error (.leave p b) s₁ ∧ s' = after s₁ := by
  rw [andThen]
  cases x s <;> simp [and_assoc, eq_comm]

theorem capture_eq_leave_iff {x : Run Unit} :
    capture x s = .error (.leave p b) s' ↔
      ∃ s₁, x { s with written := "" } = .error (.leave p b) s₁ ∧
        s' = { s₁ with written := s.written } := by
  rw [capture]
  cases x { s with written := "" } <;> simp [and_assoc, eq_comm]

theorem catchLeave_eq_leave_iff {stops : Bool → Bool} {x : Run Unit} :
    catchLeave stops x s = .error (.leave p b) s' ↔
      x s = .error (.leave p b) s' ∧ stops b = false := by
  rw [catchLeave]
  split
  · rename_i q c s₁ hx
    by_cases hc : stops c
    · simp only [hx, hc, if_true, reduceCtorEq, false_iff, not_and]
      rintro h
      cases h
      simp [hc]
    · simp only [hx, hc]
      constructor
      · rintro ⟨⟩
        exact ⟨rfl, by simpa using hc⟩
      · rintro ⟨⟨⟩, -⟩
        rfl
  · rename_i hx
    constructor
    · intro h
      exact absurd h (hx _ _ _)
    · rintro ⟨h, -⟩
      exact h

theorem Unbroken.forEach (fuel : Nat) (scope : Scope) (x : String) (source : Source) (body : Run Unit) :
    Unbroken (forEach fuel scope x source body) := by
  intro s p b s' h
  rw [forEach_eq] at h
  obtain ⟨s₁, h, -⟩ := andThen_eq_leave_iff.1 h
  exact absurd (catchLeave_eq_leave_iff.1 h).2 (by simp)

theorem renderTemplate_eq_leave_iff {d : Deeper} {scope : Scope} {t : Template} :
    renderTemplate d scope t s = .error (.leave p b) s' ↔
      d.render scope t.document.nodes (s.addMacros scope.root t.macros) = .error (.leave p b) s' ∧
        b = true := by
  show catchLeave _ (d.render scope t.document.nodes) (s.addMacros scope.root t.macros) = _ ↔ _
  simp [catchLeave_eq_leave_iff]

end Run

/-- A break gets out of an evaluation: at a `#break`, or through what is under way when it arises. What
an argument, a block, a macro or a template raises, it raises one level deeper. -/
inductive Raises (p : Place) (b : Bool) :
    Nat → {scope : Scope} → {α : Type} → Script scope α → Store → Store → Prop where
  | here {n scope α s} : Raises p b n (.leave p b : Script scope α) s s
  | first {n scope α β s s'} {x : Script scope β} {f : β → Script scope α} :
      Raises p b n x s s' → Raises p b n (.andThen x f) s s'
  | later {n scope α β s s₁ s' a} {x : Script scope β} {f : β → Script scope α} :
      x.run (Deeper.within n) s = .ok a s₁ → Raises p b n (f a) s₁ s' →
      Raises p b n (.andThen x f) s s'
  | argument {n scope s s' x c t} :
      s.lookup scope x = .argument c t → Raises p b n (evalExpr t.scope t.expr false) s s' →
      Raises p b (n + 1) (.read x : Script scope Value) s s'
  | capture {n scope s s'} {x : Script scope Unit} :
      Raises p b n x { s with written := "" } s' →
      Raises p b n (.capture x) s { s' with written := s.written }
  | rethrow {n scope α s s' f} {x : Script scope α} :
      Raises p b n x s s' → Raises p b n (.rethrow f x) s s'
  | call {n scope s s' m args body} :
      Raises p b n (renderNodes (scope.enter (s.beginCall scope m args body).1) m.body)
        (s.beginCall scope m args body).2 s' →
      Raises p b (n + 1) (.call m args body : Script scope Unit) s
        (s'.restoreParams (s.beginCall scope m args body).1)
  | template {n scope s s' t} :
      b = true → Raises p b n (renderNodes scope t.document.nodes) (s.addMacros scope.root t.macros) s' →
      Raises p b (n + 1) (.template t : Script scope Unit) s s'
  | block {n scope s s' k} :
      Raises p b n (renderNodes (s.block k).scope (s.block k).body) { s with written := "" } s' →
      Raises p b (n + 1) (.block k : Script scope String) s { s' with written := s.written }
  | text {n scope s s' v} :
      Raises p b n (textOf v : Script default String) s s' →
      Raises p b (n + 1) (.text v : Script scope String) s s'

namespace Raises

variable {p : Place} {b : Bool} {n : Nat} {s s' : Store} {scope : Scope} {α : Type}

/-- A break that gets out stops the evaluation, and stays the same. -/
theorem run {x : Script scope α} (h : Raises p b n x s s') :
    x.run (Deeper.within n) s = .error (.leave p b) s' := by
  induction h with
  | here => rfl
  | first _ ih => exact Run.bind_eq_error.2 (.inl ih)
  | later hx _ ih => exact Run.bind_eq_error.2 (.inr ⟨_, _, hx, ih⟩)
  | argument hx _ ih =>
    show Run.read _ _ _ _ = _
    rw [Run.read_eq, hx]
    exact Deeper.eval_eq_leave_iff.2 ⟨_, rfl, ih⟩
  | capture _ ih => exact Run.capture_eq_leave_iff.2 ⟨_, ih, rfl⟩
  | rethrow _ ih => exact Run.mapFailure_eq_leave.2 ih
  | call _ ih =>
    show Run.renderMacro _ _ _ _ _ _ = _
    rw [Run.renderMacro_eq]
    exact Run.andThen_eq_leave_iff.2
      ⟨_, Run.mapFailure_eq_leave.2 (Deeper.render_eq_leave_iff.2 ⟨_, rfl, ih⟩), rfl⟩
  | template hb _ ih =>
    exact Run.renderTemplate_eq_leave_iff.2 ⟨Deeper.render_eq_leave_iff.2 ⟨_, rfl, ih⟩, hb⟩
  | block _ ih =>
    exact Run.capture_eq_leave_iff.2 ⟨_, Deeper.render_eq_leave_iff.2 ⟨_, rfl, ih⟩, rfl⟩
  | text _ ih => exact Deeper.text_eq_leave_iff.2 ⟨_, rfl, ih⟩

/-- Whatever stops with a break has raised it. The induction is on the levels, and on each level on the
script. -/
theorem of_run {x : Script scope α} (h : x.run (Deeper.within n) s = .error (.leave p b) s') :
    Raises p b n x s s' := by
  induction n using Nat.strongRecOn generalizing scope α s s' with
  | ind n deeper =>
    induction x generalizing s s' with
    | done a => cases h
    | andThen x f ihx ihf =>
      rcases Run.bind_eq_error.1 h with h | ⟨a, s₁, hx, h⟩
      · exact .first (ihx h)
      · exact .later hx (ihf a h)
    | act a => exact absurd h (a.unbroken _ _ _ _ _ _)
    | leave place loopOnly =>
      cases h
      exact .here
    -- An argument is evaluated one level deeper, where the script is not a part of this one.
    | read x =>
      change Run.read _ _ _ _ = _ at h
      rw [Run.read_eq] at h
      cases hx : s.lookup scope x with
      | block k =>
        rw [hx] at h
        cases h
      | stored v =>
        rw [hx] at h
        cases h
      | argument c t =>
        rw [hx] at h
        obtain ⟨k, rfl, ht⟩ := Deeper.eval_eq_leave_iff.1 h
        exact .argument hx (deeper k (by omega) ht)
    | assign x v => cases h
    | capture x ih =>
      obtain ⟨s₁, hx, rfl⟩ := Run.capture_eq_leave_iff.1 h
      exact .capture (ih hx)
    | rethrow f x ih => exact .rethrow (ih (Run.mapFailure_eq_leave.1 h))
    | loop x source body => exact absurd h (Unbroken.forEach _ _ _ _ _ _ _ _ _)
    | call m args body =>
      change Run.renderMacro _ _ _ _ _ _ = _ at h
      rw [Run.renderMacro_eq] at h
      obtain ⟨s₁, hm, rfl⟩ := Run.andThen_eq_leave_iff.1 h
      obtain ⟨k, rfl, hbody⟩ := Deeper.render_eq_leave_iff.1 (Run.mapFailure_eq_leave.1 hm)
      exact .call (deeper k (by omega) hbody)
    | template t =>
      obtain ⟨ht, hb⟩ := Run.renderTemplate_eq_leave_iff.1 h
      obtain ⟨k, rfl, hbody⟩ := Deeper.render_eq_leave_iff.1 ht
      exact .template hb (deeper k (by omega) hbody)
    | block k =>
      obtain ⟨s₁, hk, rfl⟩ := Run.capture_eq_leave_iff.1 h
      obtain ⟨l, rfl, hbody⟩ := Deeper.render_eq_leave_iff.1 hk
      exact .block (deeper l (by omega) hbody)
    | text v =>
      obtain ⟨k, rfl, hv⟩ := Deeper.text_eq_leave_iff.1 h
      exact .text (deeper k (by omega) hv)

end Raises

/-- An evaluation stops with a break exactly when the break gets out of it. -/
theorem Script.run_eq_leave_iff {p : Place} {b : Bool} {n : Nat} {s s' : Store} {scope : Scope}
    {α : Type} {x : Script scope α} :
    x.run (Deeper.within n) s = .error (.leave p b) s' ↔ Raises p b n x s s' :=
  ⟨Raises.of_run, Raises.run⟩

/-! ### Loops -/

/-- A break gets out of the body of a loop, in one of at most so many passes. -/
inductive RaisesIn (p : Place) (b : Bool) (n : Nat) {scope : Scope} (x : String) (r : LoopRef)
    (body : Script scope Unit) : Nat → Store → Store → Prop where
  | now {k s s₁ s' v} :
      (Run.loopNext r).toRun s = .ok (some v) s₁ → Raises p b n body (s₁.assign scope x v).2 s' →
      RaisesIn p b n x r body (k + 1) s s'
  | later {k s s₁ s₂ s' v} :
      (Run.loopNext r).toRun s = .ok (some v) s₁ →
      body.run (Deeper.within n) (s₁.assign scope x v).2 = .ok () s₂ →
      RaisesIn p b n x r body k s₂ s' → RaisesIn p b n x r body (k + 1) s s'

namespace Run

theorem iterate_succ_eq_leave_iff {scope : Scope} {x : String} {r : LoopRef} {body : Run Unit}
    {k : Nat} {s s' : Store} {p : Place} {b : Bool} :
    iterate scope x r body (k + 1) s = .error (.leave p b) s' ↔
      ∃ v s₁, (loopNext r).toRun s = .ok (some v) s₁ ∧
        (body (s₁.assign scope x v).2 = .error (.leave p b) s' ∨
          ∃ s₂, body (s₁.assign scope x v).2 = .ok () s₂ ∧
            iterate scope x r body k s₂ = .error (.leave p b) s') := by
  rw [iterate, bind_eq_error]
  constructor
  · rintro (h | ⟨v, s₁, hv, h⟩)
    -- Taking an item never stops with a break.
    · exact absurd h (Unbroken.toRun _ _ _ _ _)
    · cases v with
      | none => cases h
      | some v =>
        refine ⟨v, s₁, hv, ?_⟩
        rcases bind_eq_error.1 h with h | ⟨u, s₂, ha, h⟩
        · cases h
        · cases ha
          rcases bind_eq_error.1 h with h | ⟨⟨⟩, s₂, hb, h⟩
          · exact .inl h
          · exact .inr ⟨s₂, hb, h⟩
  · rintro ⟨v, s₁, hv, h⟩
    refine .inr ⟨some v, s₁, hv, bind_eq_error.2 (.inr ⟨_, _, rfl, bind_eq_error.2 ?_⟩)⟩
    rcases h with h | ⟨s₂, hb, h⟩
    · exact .inl h
    · exact .inr ⟨(), s₂, hb, h⟩

theorem iterate_eq_leave_iff {n k : Nat} {scope : Scope} {x : String} {r : LoopRef}
    {body : Script scope Unit} {s s' : Store} {p : Place} {b : Bool} :
    iterate scope x r (body.run (Deeper.within n)) k s = .error (.leave p b) s' ↔
      RaisesIn p b n x r body k s s' := by
  constructor
  · intro h
    induction k generalizing s with
    | zero => exact absurd h (Unbroken.exhausted _ _ _ _)
    | succ k ih =>
      rcases iterate_succ_eq_leave_iff.1 h with ⟨v, s₁, hv, h | ⟨s₂, hb, h⟩⟩
      · exact .now hv (.of_run h)
      · exact .later hv hb (ih h)
  · intro h
    induction h with
    | now hv h => exact iterate_succ_eq_leave_iff.2 ⟨_, _, hv, .inl h.run⟩
    | later hv hb _ ih => exact iterate_succ_eq_leave_iff.2 ⟨_, _, hv, .inr ⟨_, hb, ih⟩⟩

/-- A loop never stops with a break; one in its body ends it, and its variables are given back. -/
theorem forEach_of_raisesIn {n : Nat} {scope : Scope} {x : String} {source : Source}
    {body : Script scope Unit} {s s' : Store} {p : Place} {b : Bool}
    (h : RaisesIn p b n x (s.beginLoop scope x source).1 body n (s.beginLoop scope x source).2.2.2 s') :
    forEach n scope x source (body.run (Deeper.within n)) s =
      .ok () ((s'.undo (s.beginLoop scope x source).2.2.1).undo (s.beginLoop scope x source).2.1) := by
  rw [forEach_eq, andThen, catchLeave, iterate_eq_leave_iff.2 h]
  rfl

end Run

/-- A break that a loop lets out arose before the first pass: from the collection, or from the text of a
value that has no items. -/
theorem renderNode_foreach_eq_leave_iff {n : Nat} {scope : Scope} {place : Place} {x : String}
    {e : Expr} {body : List Node} {s s' : Store} {p : Place} {b : Bool} :
    (renderNode scope (.foreach place x e body)).run (Deeper.within n) s = .error (.leave p b) s' ↔
      Raises p b n (evalExpr scope e false) s s' ∨
        ∃ v s₁, (evalExpr scope e false).run (Deeper.within n) s = .ok v s₁ ∧ v ≠ .null ∧
          Run.source? v = none ∧ Raises p b n (hostText place v : Script scope String) s₁ s' := by
  rw [renderNode, Script.run_bind, Run.bind_eq_error, Script.run_eq_leave_iff]
  refine or_congr_right (exists_congr fun v => exists_congr fun s₁ => and_congr_right fun _ => ?_)
  split
  · simpa using Unbroken.pure () s₁ p b s'
  · rename_i hv
    split
    · rename_i source hs
      simp only [hs, reduceCtorEq, false_and, and_false, iff_false]
      exact Unbroken.forEach _ _ _ _ _ _ _ _ _
    · rename_i hs
      rw [Script.run_bind, Run.bind_eq_error, Script.run_eq_leave_iff]
      constructor
      · rintro (h | ⟨text, s₂, -, h⟩)
        · exact ⟨hv, hs, h⟩
        · cases h
      · rintro ⟨-, -, h⟩
        exact .inl h

theorem renderNode_foreach_eq {d : Deeper} {scope : Scope} {place : Place} {x : String}
    {e : Expr} {body : List Node} {s s₁ : Store} {v : Value} {source : Source}
    (he : (evalExpr scope e false).run d s = .ok v s₁) (hv : Run.source? v = some source) :
    (renderNode scope (.foreach place x e body)).run d s =
      Run.forEach d.fuel scope x source ((renderNodes scope body).run d) s₁ := by
  rw [renderNode, Script.run_bind, Run.bind_ok he]
  split
  · cases hv
  · rw [hv]
    rfl

/-! ### Templates in the place of a directive -/

/-- Which template a `#parse` or an `#evaluate` renders, and from which store on. -/
inductive Includes (n : Nat) (scope : Scope) : Node → Store → Template → Store → Prop where
  | parse {place e name s s₁ t s₂} :
      (evalExpr scope e false).run (Deeper.within n) s = .ok (.str name) s₁ →
      Run.loadAt scope place name s₁ = .ok t s₂ → Includes n scope (.parse place e) s t s₂
  | evaluate {place e text s s₁ t s₂} :
      (evalExpr scope e false).run (Deeper.within n) s = .ok (.str text) s₁ →
      Run.parseAt scope place text s₁ = .ok t s₂ → Includes n scope (.evaluate place e) s t s₂

theorem Includes.renderNode_eq {n : Nat} {scope : Scope} {node : Node} {s s₁ : Store} {t : Template}
    (h : Includes n scope node s t s₁) :
    (renderNode scope node).run (Deeper.within n) s =
      Run.renderTemplate (Deeper.within n) scope t s₁ := by
  cases h with
  | parse he ht =>
    rw [renderNode, Script.run_bind, Run.bind_ok he]
    exact Run.bind_ok ht
  | evaluate he ht =>
    rw [renderNode, Script.run_bind, Run.bind_ok he]
    exact Run.bind_ok ht

theorem Run.renderTemplate_of_raises {n : Nat} {scope : Scope} {t : Template} {s s' : Store}
    {p : Place} {b : Bool}
    (h : Raises p b n (renderNodes scope t.document.nodes) (s.addMacros scope.root t.macros) s') :
    renderTemplate (Deeper.within (n + 1)) scope t s =
      if b then .error (.leave p b) s' else .ok () s' := by
  show catchLeave _ _ (s.addMacros scope.root t.macros) = _
  rw [catchLeave, Deeper.render_eq_leave_iff.2 ⟨n, rfl, h.run⟩]
  cases b <;> rfl

/-! ### The evaluation of a template -/

namespace Run

theorem endBreaks_of_leave {x : Run Unit} {s s' : Store} {p : Place} {b : Bool}
    (h : x s = .error (.leave p b) s') :
    endBreaks x s = if b then failAt p .leaveOutside s' else .ok () s' := by
  simp only [endBreaks, h]

theorem endBreaks_unbroken (x : Run Unit) : Unbroken (endBreaks x) := by
  intro s p b s' h
  rw [endBreaks] at h
  split at h
  · split at h <;> cases h
  · rename_i hx
    exact hx _ _ _ h

end Run

namespace Template

theorem evaluateWithin_unbroken (n : Nat) (t : Template) (vars : Bindings Value) (host : HostKind) :
    Unbroken (t.evaluateWithin n vars host) := by
  refine .bind (.modifyGet _) fun scope s p b s' h => ?_
  obtain ⟨s₁, h, -⟩ := Run.capture_eq_leave_iff.1 h
  exact Run.endBreaks_unbroken _ _ _ _ _ h

theorem evaluateWithin_of_raises {n : Nat} {t : Template} {vars : Bindings Value} {host : HostKind}
    {s s' : Store} {p : Place} {b : Bool}
    (h : Raises p b n (renderNodes (s.enterRoot ⟨vars, t.macros, host, t.loader⟩).1 t.document.nodes)
      { (s.enterRoot ⟨vars, t.macros, host, t.loader⟩).2 with written := "" } s') :
    t.evaluateWithin (n + 1) vars host s =
      if b then
        .error (.failure (.evaluation ⟨some p, .leaveOutside, []⟩)) { s' with written := s.written }
      else .ok s'.written { s' with written := s.written } := by
  refine (Run.bind_ok rfl).trans ?_
  have hr := Run.endBreaks_of_leave (x := renderWithin (n + 1) _ _) h.run
  cases b with
  | false => exact Run.capture_of_ok hr
  | true => exact Run.capture_of_error hr

end Template

/-- Every break ends its own scope and no more. Whatever is under way passes it on as it is
(`Raises`), but a loop stops those of its body and goes on after the loop, a `#parse` or `#evaluate`
stops those that are not meant for a loop, and a whole evaluation gives the text written so far for such
a break, and for one that is meant for a loop an error at the place of the `#break`. -/
theorem break_ends_its_scope (n : Nat) (p : Place) :
    (∀ {scope : Scope} {α : Type} (x : Script scope α) (b : Bool) (s s' : Store),
      x.run (Deeper.within n) s = .error (.leave p b) s' ↔ Raises p b n x s s') ∧
    (∀ (scope : Scope) (e : Expr) (r : LoopRef) (s s₁ : Store),
      Raises p false n (renderNode scope (.leave p)) s s ∧
      ((evalExpr scope e false).run (Deeper.within n) s = .ok (.loop r) s₁ →
        Raises p true n (renderNode scope (.leaveScope p e)) s s₁)) ∧
    (∀ (scope : Scope) (place : Place) (x : String) (e : Expr) (body : List Node) (b : Bool)
        (s s' : Store),
      (renderNode scope (.foreach place x e body)).run (Deeper.within n) s = .error (.leave p b) s' ↔
        Raises p b n (evalExpr scope e false) s s' ∨
          ∃ v s₁, (evalExpr scope e false).run (Deeper.within n) s = .ok v s₁ ∧ v ≠ .null ∧
            Run.source? v = none ∧ Raises p b n (hostText place v : Script scope String) s₁ s') ∧
    (∀ (scope : Scope) (place : Place) (x : String) (e : Expr) (body : List Node) (b : Bool)
        (s s₁ s' : Store) (v : Value) (source : Source),
      (evalExpr scope e false).run (Deeper.within n) s = .ok v s₁ → Run.source? v = some source →
      RaisesIn p b n x (s₁.beginLoop scope x source).1 (renderNodes scope body) n
        (s₁.beginLoop scope x source).2.2.2 s' →
      (renderNode scope (.foreach place x e body)).run (Deeper.within n) s =
        .ok () ((s'.undo (s₁.beginLoop scope x source).2.2.1).undo (s₁.beginLoop scope x source).2.1)) ∧
    (∀ (scope : Scope) (node : Node) (t : Template) (b : Bool) (s s₁ s' : Store),
      Includes (n + 1) scope node s t s₁ →
      Raises p b n (renderNodes scope t.document.nodes) (s₁.addMacros scope.root t.macros) s' →
      (renderNode scope node).run (Deeper.within (n + 1)) s =
        if b then .error (.leave p b) s' else .ok () s') ∧
    (∀ (t : Template) (vars : Bindings Value) (host : HostKind) (b : Bool) (s s' : Store),
      t.evaluateWithin n vars host s ≠ .error (.leave p b) s' ∧
      (Raises p b n
          (renderNodes (s.enterRoot ⟨vars, t.macros, host, t.loader⟩).1 t.document.nodes)
          { (s.enterRoot ⟨vars, t.macros, host, t.loader⟩).2 with written := "" } s' →
        t.evaluateWithin (n + 1) vars host s =
          if b then
            .error (.failure (.evaluation ⟨some p, .leaveOutside, []⟩))
              { s' with written := s.written }
          else .ok s'.written { s' with written := s.written })) := by
  refine ⟨fun x b s s' => Script.run_eq_leave_iff, fun scope e r s s₁ => ⟨?_, fun he => ?_⟩,
    fun scope place x e body b s s' => renderNode_foreach_eq_leave_iff,
    fun scope place x e body b s s₁ s' v source he hv h => ?_,
    fun scope node t b s s₁ s' ht h => ?_,
    fun t vars host b s s' => ⟨t.evaluateWithin_unbroken n vars host s p b s',
      Template.evaluateWithin_of_raises⟩⟩
  · rw [renderNode]
    exact .here
  · rw [renderNode]
    exact .later he .here
  · rw [renderNode_foreach_eq he hv]
    exact Run.forEach_of_raisesIn h
  · rw [ht.renderNode_eq]
    exact Run.renderTemplate_of_raises h

/-- A `#break` in a loop over one item, in a template that a `#parse` renders, one that names a loop, and
one in a template that is evaluated. -/
theorem four_breaks_end_their_scopes :
    let p : Place := ⟨none, 3⟩
    let scope : Scope := ⟨[], ⟨0⟩⟩
    let t : Template := ⟨0, ⟨p, [.text p "a", .leave p], []⟩, ⟨0⟩⟩
    let s : Store :=
      { roots := ⟨#[⟨[("f", .loop ⟨0⟩)], [], .standard, ⟨0⟩⟩]⟩, loaders := ⟨#[⟨.texts, [("t", t)]⟩]⟩ }
    (∃ s', RaisesIn p false 1 "x" (s.beginLoop scope "x" (.items [.int 1])).1
        (renderNodes scope [.leave p]) 1 (s.beginLoop scope "x" (.items [.int 1])).2.2.2 s' ∧
      (renderNode scope (.foreach p "x" (.list p [.literal p (.int 1)]) [.leave p])).run
        (Deeper.within 1) s = .ok () ((s'.undo (s.beginLoop scope "x" (.items [.int 1])).2.2.1).undo
          (s.beginLoop scope "x" (.items [.int 1])).2.1)) ∧
    (∃ s₁ s', Includes 2 scope (.parse p (.text p .single [.text p "t"])) s t s₁ ∧
      Raises p false 1 (renderNodes scope t.document.nodes) (s₁.addMacros scope.root t.macros) s' ∧
      (renderNode scope (.parse p (.text p .single [.text p "t"]))).run (Deeper.within 2) s =
        .ok () s') ∧
    (∃ s', Raises p true 1 (renderNode scope (.leaveScope p (.reference p "f" false []))) s s') ∧
    (∃ s', Raises p false 1
        (renderNodes (s.enterRoot ⟨[], [], .standard, ⟨0⟩⟩).1 t.document.nodes)
        { (s.enterRoot ⟨[], [], .standard, ⟨0⟩⟩).2 with written := "" } s' ∧
      t.evaluateWithin 2 [] .standard s = .ok s'.written { s' with written := s.written }) := by
  intro p scope t s
  refine ⟨?_, ?_, ?_, ?_⟩
  · have hp : RaisesIn p false 1 "x" (s.beginLoop scope "x" (.items [.int 1])).1
        (renderNodes scope [.leave p]) 1 (s.beginLoop scope "x" (.items [.int 1])).2.2.2 _ :=
      .now rfl (.first .here)
    exact ⟨_, hp, (break_ends_its_scope 1 p).2.2.2.1 scope p "x" _ _ false s s _ (.tuple [.int 1]) _
      rfl rfl hp⟩
  · have ht : Includes 2 scope (.parse p (.text p .single [.text p "t"])) s t s := .parse rfl rfl
    have hp : Raises p false 1 (renderNodes scope t.document.nodes) (s.addMacros scope.root t.macros) _ :=
      .later rfl (.first .here)
    exact ⟨s, _, ht, hp, (break_ends_its_scope 1 p).2.2.2.2.1 scope _ t false s s _ ht hp⟩
  · exact ⟨_, ((break_ends_its_scope 1 p).2.1 scope (.reference p "f" false []) ⟨0⟩ s s).2 rfl⟩
  · have hp : Raises p false 1
        (renderNodes (s.enterRoot ⟨[], [], .standard, ⟨0⟩⟩).1 t.document.nodes)
        { (s.enterRoot ⟨[], [], .standard, ⟨0⟩⟩).2 with written := "" } _ := .later rfl (.first .here)
    exact ⟨_, hp, ((break_ends_its_scope 1 p).2.2.2.2.2 t [] .standard false s _).2 hp⟩

end Stencil
