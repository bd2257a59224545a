import Stencil.Proofs.Break
import Stencil.Proofs.RawFailures

/-!
# The macros in front of an error message

An evaluation error arises in one place of an evaluation: an act fails with it, or the failure of a host value is
worded there. From there it comes out with the macros that are under way in front of its message, outermost first,
and is otherwise the same: `Template.errors_are_traced`. Which macros are under way says `Reaches`, for an error in
the body of a macro, in an argument that the body reads, in a block or in another template.
-/

namespace Stencil

open Failure (IsEvaluation IsFresh)
open Layer (steps)

/-- What the message of an error begins with for a macro that is under way. -/
def MacroDef.announcement (m : MacroDef) : String :=
  s!"In macro #{m.name} defined on line {m.place.line}: "

/-- The macros among layers, outermost first. -/
def Layer.macros (ls : List Layer) : List MacroDef :=
  ls.filterMap fun
    | rethrow _ => none
    | body m => some m

theorem Layer.steps_eq (ls : List Layer) : steps ls = (macros ls).map fun m => ⟨m.name, m.place.line⟩ := by
  rw [steps, macros, List.map_filterMap]
  congr 1
  funext l
  cases l <;> rfl

/-- An error that comes out of macros: their names and lines are put in front of its trace. -/
def EvalError.outOf (calls : List MacroDef) (e : EvalError) : EvalError :=
  { e with trace := calls.map (fun m => ⟨m.name, m.place.line⟩) ++ e.trace }

@[simp] theorem EvalError.outOf_nil (e : EvalError) : e.outOf [] = e := rfl

@[simp] theorem EvalError.place_outOf (calls : List MacroDef) (e : EvalError) : (e.outOf calls).place = e.place := rfl

/-- What comes out of macros is announced by each of them. -/
theorem EvalError.message_outOf (calls : List MacroDef) (e : EvalError) :
    (e.outOf calls).message = String.join (calls.map MacroDef.announcement) ++ e.message := by
  simp only [message, outOf, List.map_append, List.map_map, String.join_append, String.append_assoc]
  rfl

/-! ### Where an error arises -/

/-- An evaluation error arises at the beginning of a script: an act fails with it, or a failure that is none is
worded as it. -/
inductive Arises (n : Nat) {scope : Scope} : {α : Type} → Script scope α → Store → EvalError → Prop
  | act {α s s' e} {a : Act α} : a.run (Deeper.within n).fuel scope s = .error (.failure (.evaluation e)) s' →
      Arises n (.act a) s e
  | worded {α s s' g e f} {x : Script scope α} : x.run (Deeper.within n) s = .error (.failure g) s' →
      ¬ IsEvaluation g → f g = .evaluation e → Arises n (.rethrow f x) s e

/-- An evaluation error arises in the middle of a run, while macros are under way, outermost first. -/
inductive ArisesIn {scope : Scope} {α : Type} (n : Nat) (x : Script scope α) (s : Store) :
    List MacroDef → EvalError → Prop
  | mk {scope₁ : Scope} {β : Type} {k : Nat} {y : Script scope₁ β} {s₁ : Store} {ls : List Layer} {e : EvalError} :
      Reaches k y s₁ ls n x s → Arises k y s₁ e → ArisesIn n x s (Layer.macros ls) e

variable {scope scope₁ : Scope} {α β : Type} {k n : Nat} {x : Script scope α} {y : Script scope₁ β}
  {s s₁ s' : Store} {ls : List Layer} {calls : List MacroDef} {e : EvalError}

theorem Arises.fails (h : Arises n x s e) :
    ∃ s', x.run (Deeper.within n) s = .error (.failure (.evaluation e)) s' := by
  cases h with
  | act ha => exact ⟨_, ha⟩
  | worded hx _ hf => exact ⟨_, (Run.mapFailure_of_failure hx).trans (by rw [hf])⟩

namespace ArisesIn

theorem fails (h : ArisesIn n x s calls e) :
    ∃ s', x.run (Deeper.within n) s = .error (.failure (.evaluation (e.outOf calls))) s' := by
  obtain ⟨hreach, harises⟩ := h
  obtain ⟨s₂, hy⟩ := harises.fails
  rw [EvalError.outOf, ← Layer.steps_eq]
  exact hreach.fails_evaluation hy

theorem of_reaches (h : ArisesIn k y s₁ calls e) (hx : Reaches k y s₁ ls n x s) :
    ArisesIn n x s (Layer.macros ls ++ calls) e := by
  obtain ⟨hreach, harises⟩ := h
  rw [Layer.macros, Layer.macros, ← List.filterMap_append]
  exact .mk (hreach.trans hx) harises

end ArisesIn

/-! ### Every error arises somewhere -/

/-- An evaluation error that a run ends with is one that arises in it, as it comes out of the macros that are under
way there. -/
def IsTraced (n : Nat) (x : Script scope α) (s : Store) (e : EvalError) : Prop :=
  ∃ calls e₀, ArisesIn n x s calls e₀ ∧ e₀.trace = [] ∧ e = e₀.outOf calls

theorem IsTraced.of_reaches (h : IsTraced k y s₁ e) (hx : Reaches k y s₁ ls n x s) :
    IsTraced n x s (e.outOf (Layer.macros ls)) := by
  obtain ⟨calls, e₀, harises, hfresh, rfl⟩ := h
  refine ⟨_, e₀, harises.of_reaches hx, hfresh, ?_⟩
  simp only [EvalError.outOf, List.map_append, List.append_assoc]

theorem IsTraced.here (h : Arises n x s e) (hfresh : e.trace = []) : IsTraced n x s e :=
  ⟨_, e, .mk .here h, hfresh, rfl⟩

/-- Loading a template words its failures without a macro. -/
theorem Run.isFresh_loadFailure {f : Failure} (h : f.IsReading) (place : Place) : (loadFailure place f).IsFresh := by
  cases f with
  | parse e => exact rfl
  | resource e =>
    rw [loadFailure]
    split
    · exact rfl
    · trivial
  | _ => cases h

/-- An act adds no macro to a trace. -/
theorem Act.Fails.isFresh {a : Act α} {F : Failure → Prop} {fuel : Nat} {f : Failure} (h : a.Fails .any F)
    (ha : a.run fuel scope s = .error (.failure f) s') : f.IsFresh := by
  cases a with
  | step x =>
    have hx := h s.toCells trivial
    change x.toRun s = _ at ha
    rw [Step.toRun] at ha
    split at ha
    · cases ha
    · rename_i e c hstep
      rw [hstep] at hx
      cases e with
      | failure g =>
        cases ha
        exact hx.2.2
      | exhausted => cases ha
  | load place name =>
    obtain ⟨g, hg, rfl⟩ := Run.mapFailure_eq_failure ha
    obtain hg | ⟨r, s₁, -, hg⟩ := Run.bind_eq_error.1 hg
    · cases hg
    · exact Run.isFresh_loadFailure (Run.isReading_of_load hg) place
  | parse place text =>
    obtain ⟨g, hg, rfl⟩ := Run.mapFailure_eq_failure ha
    obtain hg | ⟨r, s₁, -, hg⟩ := Run.bind_eq_error.1 hg
    · cases hg
    · exact Run.isFresh_loadFailure (Run.isReading_of_parseText hg) place
  | define body origin =>
    obtain ha | ⟨i, s₁, -, ha⟩ := Run.bind_eq_error.1 ha
    · cases ha
    · obtain ha | ⟨_, _, -, ha⟩ := Run.bind_eq_error.1 ha <;> cases ha
  | _ => cases ha

/-- Whether what is evaluated and rendered one level deeper fails with traced errors only. -/
structure Deeper.TracesErrors (n : Nat) : Prop where
  eval : ∀ {scope a s e s'}, (within n).eval scope a s = .error (.failure (.evaluation e)) s' →
    ∃ m, n = m + 1 ∧ IsTraced m (evalExpr scope a false) s e
  render : ∀ {scope nodes s e s'}, (within n).render scope nodes s = .error (.failure (.evaluation e)) s' →
    ∃ m, n = m + 1 ∧ IsTraced m (renderNodes scope nodes) s e
  text : ∀ {v s e s'}, (within n).text v s = .error (.failure (.evaluation e)) s' →
    ∃ m, n = m + 1 ∧ IsTraced m (textOf v : Script default String) s e

/-- One level: an evaluation error that a script ends with arises in it, or one level deeper. -/
theorem Script.Fails.traced_step {F : Failure → Prop} (hd : Deeper.TracesErrors n) (h : Script.Fails .any F x)
    (hx : x.run (Deeper.within n) s = .error (.failure (.evaluation e)) s') : IsTraced n x s e := by
  induction h generalizing s s' e with
  | done => cases hx
  | andThen _ _ ihx ihf =>
    obtain hx | ⟨b, s₁, hx, hf⟩ := Run.bind_eq_error.1 hx
    · exact (ihx hx).of_reaches (.first .here)
    · exact (ihf b hf).of_reaches (.later hx .here)
  | act ha => exact .here (.act hx) (ha.isFresh hx)
  | leave => cases hx
  | @read _ x =>
    change Run.read _ _ _ _ = _ at hx
    rw [Run.read_eq] at hx
    cases hlookup : s.lookup scope x with
    | argument c t =>
      rw [hlookup] at hx
      obtain ⟨m, rfl, htraced⟩ := hd.eval hx
      exact htraced.of_reaches (.argument hlookup .here)
    | _ =>
      rw [hlookup] at hx
      cases hx
  | assign =>
    obtain hx | ⟨_, _, -, hx⟩ := Run.bind_eq_error.1 hx <;> cases hx
  | capture _ ih =>
    obtain ⟨s₁, hx⟩ := Run.capture_eq_failure hx
    exact (ih hx).of_reaches (.capture .here)
  -- The error comes from inside as it is, or it is what a failure from inside is worded as.
  | rethrow _ _ _ words ih =>
    obtain ⟨g, hinner, hg⟩ := Run.mapFailure_eq_failure hx
    by_cases hkind : IsEvaluation g
    · cases g with
      | evaluation e₁ =>
        rw [words.keeps] at hg
        cases hg
        exact (ih hinner).of_reaches (.rethrow words.keeps .here)
      | _ => cases hkind
    · have hfresh := words.fresh g hkind
      rw [← hg] at hfresh
      exact .here (.worded hinner hkind hg.symm) hfresh
  | @loop _ x source body _ ih =>
    change Run.forEach .. = _ at hx
    rw [Run.forEach_eq] at hx
    obtain ⟨s₁, hx⟩ := Run.andThen_eq_failure hx
    obtain hfetch | ⟨ρ, hρ, hbody⟩ := Run.fetchFails_or_renders (Run.catchLeave_eq_failure hx)
    · exact hfetch.isRaw.elim
    · exact (ih hbody).of_reaches (.pass hρ .here)
  | @call _ m args body =>
    change Run.renderMacro .. = _ at hx
    rw [Run.renderMacro_eq] at hx
    obtain ⟨s₁, hx⟩ := Run.andThen_eq_failure hx
    obtain ⟨g, hinner, hg⟩ := Run.mapFailure_eq_failure hx
    cases g with
    | evaluation e₁ =>
      cases hg
      obtain ⟨k, rfl, htraced⟩ := hd.render hinner
      exact htraced.of_reaches (.call .here)
    | _ => cases hg
  | @template _ t =>
    obtain hx | ⟨_, s₁, hmacros, hx⟩ := Run.bind_eq_error.1 hx
    · cases hx
    · cases hmacros
      obtain ⟨m, rfl, htraced⟩ := hd.render (Run.catchLeave_eq_failure hx)
      exact htraced.of_reaches (.template .here)
  | @block _ b =>
    obtain hx | ⟨_, s₁, hblock, hx⟩ := Run.bind_eq_error.1 hx
    · cases hx
    · cases hblock
      obtain ⟨s₂, hx⟩ := Run.capture_eq_failure hx
      obtain ⟨m, rfl, htraced⟩ := hd.render hx
      exact htraced.of_reaches (.block .here)
  | @text _ v =>
    obtain ⟨m, rfl, htraced⟩ := hd.text hx
    exact htraced.of_reaches (.text .here)

/-- However many levels are left, every error is traced. -/
theorem Deeper.tracesErrors (n : Nat) : Deeper.TracesErrors n := by
  induction n with
  | zero => exact ⟨fun h => (nomatch h), fun h => (nomatch h), fun h => (nomatch h)⟩
  | succ n ih =>
    exact ⟨fun h => ⟨n, rfl, (fails_evalExpr _ false).traced_step ih h⟩,
      fun h => ⟨n, rfl, (fails_renderNodes _).traced_step ih h⟩,
      fun h => ⟨n, rfl, (fails_textOf _).traced_step ih h⟩⟩

/-! ### The evaluation of a template -/

namespace Template

variable {t : Template} {vars : Bindings Value} {host : HostKind}

/-- An evaluation error arises in an evaluation of a template, while macros are under way, outermost first. A break
that is meant for a loop becomes one when it has left them all. -/
inductive ArisesIn (t : Template) (n : Nat) (vars : Bindings Value) (host : HostKind) (s : Store) :
    List MacroDef → EvalError → Prop
  | inside {scope₁ : Scope} {β : Type} {k : Nat} {y : Script scope₁ β} {s₁ : Store} {ls : List Layer}
      {e : EvalError} : t.Reaches k y s₁ ls n vars host s → Arises k y s₁ e →
      ArisesIn t n vars host s (Layer.macros ls) e
  | leave {p : Place} {s' : Store} :
      Raises p true n (renderNodes (s.enterRoot ⟨vars, t.macros, host, t.loader⟩).1 t.document.nodes)
        { (s.enterRoot ⟨vars, t.macros, host, t.loader⟩).2 with written := "" } s' →
      ArisesIn t n vars host s [] ⟨some p, .leaveOutside, []⟩

/-- An error that arises in an evaluation ends it, as it comes out of the macros. -/
theorem ArisesIn.fails (h : t.ArisesIn n vars host s calls e) :
    ∃ s', t.evaluateWithin (n + 1) vars host s = .error (.failure (.evaluation (e.outOf calls))) s' := by
  cases h with
  | inside hreach harises =>
    obtain ⟨s₂, hy⟩ := harises.fails
    rw [EvalError.outOf, ← Layer.steps_eq, ← Layer.through_evaluation (Reaches.traces hreach)]
    exact fails_of_reaches hreach hy
  | leave hleave => exact ⟨_, evaluateWithin_of_raises hleave⟩

/-- An evaluation that ends with an error is one in which it arises. -/
theorem arisesIn_of_fails
    (h : t.evaluateWithin (n + 1) vars host s = .error (.failure (.evaluation e)) s') :
    ∃ calls e₀, t.ArisesIn n vars host s calls e₀ ∧ e₀.trace = [] ∧ e = e₀.outOf calls := by
  obtain hscope | ⟨scope, s₁, hscope, hfail⟩ := Run.bind_eq_error.1 h
  · cases hscope
  cases hscope
  obtain ⟨s₂, hfail⟩ := Run.capture_eq_failure hfail
  rw [Run.endBreaks] at hfail
  split at hfail
  · rename_i p loopOnly s₃ hleave
    split at hfail
    · rename_i hloop
      subst hloop
      cases hfail
      exact ⟨[], _, .leave (Raises.of_run hleave), rfl, rfl⟩
    · cases hfail
  · obtain ⟨calls, e₀, ⟨hreach, harises⟩, hfresh, rfl⟩ :=
      (fails_renderNodes _).traced_step (Deeper.tracesErrors n) hfail
    exact ⟨_, e₀, .inside hreach harises, hfresh, rfl⟩

/-- An evaluation ends with an evaluation error exactly where one arises in it. The message is then the one of the
error where it arises, which no macro has announced yet, preceded by an announcement for each macro that is under way
there, outermost first; and the place is the one where it arises. -/
theorem errors_are_traced (t : Template) (n : Nat) (vars : Bindings Value) (host : HostKind) (s : Store) :
    (∀ e s', t.evaluateWithin (n + 1) vars host s = .error (.failure (.evaluation e)) s' →
      ∃ calls e₀, t.ArisesIn n vars host s calls e₀ ∧ e₀.message = e₀.originMessage ∧
        e.message = String.join (calls.map MacroDef.announcement) ++ e₀.message ∧ e.place = e₀.place) ∧
    ∀ calls e₀, t.ArisesIn n vars host s calls e₀ →
      ∃ e s', t.evaluateWithin (n + 1) vars host s = .error (.failure (.evaluation e)) s' ∧
        e.message = String.join (calls.map MacroDef.announcement) ++ e₀.message ∧ e.place = e₀.place := by
  refine ⟨fun e s' h => ?_, fun calls e₀ h => ?_⟩
  · obtain ⟨calls, e₀, harises, hfresh, rfl⟩ := arisesIn_of_fails h
    refine ⟨calls, e₀, harises, ?_, EvalError.message_outOf calls e₀, rfl⟩
    rw [EvalError.message, hfresh]
    exact String.empty_append
  · obtain ⟨s', hs'⟩ := h.fails
    exact ⟨_, s', hs', EvalError.message_outOf calls e₀, rfl⟩

/-- A macro hands an argument on to another one, which reads it; what the caller wrote as the argument is an undefined
variable. The error stands at the place of the caller, and both macros announce it. -/
theorem errors_are_traced_of_argument :
    let p (line : Nat) : Place := ⟨some "page", line⟩
    let inner : MacroDef := ⟨p 1, "inner", ["x"], [.output (.reference (p 2) "x" false [])]⟩
    let outer : MacroDef := ⟨p 4, "outer", ["y"], [.call (p 5) "inner" [.reference (p 5) "y" false []]]⟩
    let t : Template := ⟨0, ⟨p 8, [.call (p 7) "outer" [.reference (p 7) "oops" false []]], [inner, outer]⟩, ⟨0⟩⟩
    t.ArisesIn 5 [] .standard {} [outer, inner] ⟨some (p 7), .undefined "oops", []⟩ ∧
      ∃ e s', t.evaluateWithin 6 [] .standard {} = .error (.failure (.evaluation e)) s' ∧
        e.message = "In macro #outer defined on line 4: In macro #inner defined on line 1: " ++
          "In expression on line 7 of page: Undefined reference $oops" ∧ e.place = some (p 7) := by
  intro p inner outer t
  have harises : t.ArisesIn 5 [] .standard {} [outer, inner] ⟨some (p 7), .undefined "oops", []⟩ := by
    apply @ArisesIn.inside _ _ _ _ _ _ _ _ _ _ [.body outer, .body inner]
    · -- The call of each macro, and then the arguments that lead to what the caller wrote.
      iterate 2
        apply Reaches.first
        apply Reaches.later rfl
        apply Reaches.call
      apply Reaches.first
      apply Reaches.first
      exact .later rfl (.first (.argument rfl (.later rfl (.first (.argument rfl (.later rfl .here))))))
    · exact .act rfl
  obtain ⟨e, s', hfails, hmessage, hplace⟩ := (t.errors_are_traced 5 [] .standard {}).2 _ _ harises
  refine ⟨harises, e, s', hfails, hmessage.trans ?_, hplace⟩
  decide +kernel

end Template

end Stencil
