import Stencil.Proofs.Answer
import Stencil.Proofs.Failures
import Stencil.Proofs.Reaches

/-!
# Failures that come out as they are

Every use of a host value words what it fails with, except one: a loop takes its next item outside of any
expression, so an error of host code there ends the evaluation as it is. `Script.Fails.raw` shows, constructor by
constructor and level by level, that nothing else does but an error of reading a file.
-/

namespace Stencil

open Failure (IsEvaluation IsOrdinary IsRaw)

/-! ### Loops -/

namespace Run

/-- Taking an item for a loop fails, after some passes; there are at most so many. -/
inductive FetchFails (scope : Scope) (x : String) (r : LoopRef) (body : Run Unit) (f : Failure) :
    Nat → Store → Prop
  | now {n s s₁} : (loopNext r).toRun s = .error (.failure f) s₁ → FetchFails scope x r body f (n + 1) s
  | later {n s s₁ s₂ v} : (loopNext r).toRun s = .ok (some v) s₁ → body (s₁.assign scope x v).2 = .ok () s₂ →
      FetchFails scope x r body f n s₂ → FetchFails scope x r body f (n + 1) s

variable {scope : Scope} {x : String} {r : LoopRef} {body : Run Unit} {f : Failure} {n : Nat} {s s' : Store}

theorem iterate_of_fetchFails (h : FetchFails scope x r body f n s) :
    ∃ s', iterate scope x r body n s = .error (.failure f) s' := by
  induction h with
  | now hnext => exact ⟨_, bind_eq_error.2 (.inl hnext)⟩
  | later hnext hbody _ ih =>
    obtain ⟨s', hs'⟩ := ih
    exact ⟨s', bind_eq_error.2 (.inr ⟨_, _, hnext, (bind_ok rfl).trans ((bind_ok hbody).trans hs')⟩)⟩

/-- A loop fails in taking an item or in a rendering of its body. -/
theorem fetchFails_or_renders (h : iterate scope x r body n s = .error (.failure f) s') :
    FetchFails scope x r body f n s ∨
      ∃ ρ ∈ renderings scope x r body n s, body ρ.start = .error (.failure f) s' := by
  have hruns := renders_iterate scope x r body n s
  rw [h] at hruns
  generalize hresult : (EStateM.Result.error (Halt.failure f) s' : EStateM.Result Halt Store Unit) = result
    at hruns
  generalize renderings scope x r body n s = ρs at hruns
  clear h
  induction hruns with
  | exhausted | done => cases hresult
  | failed hnext =>
    cases hresult
    exact .inl (.now hnext)
  | stopped _ hbody =>
    cases hresult
    exact .inr ⟨_, List.mem_singleton_self _, hbody⟩
  | further hnext hbody _ ih =>
    rcases ih hresult with hfetch | ⟨ρ, hρ, hrest⟩
    · exact .inl (.later hnext hbody hfetch)
    · exact .inr ⟨ρ, List.mem_cons_of_mem _ hρ, hrest⟩

/-- Taking an item fails with an error of host code. -/
theorem FetchFails.isRaw (h : FetchFails scope x r body f n s) : f.IsRaw := by
  induction h with
  | @now n s s₁ hnext =>
    have hstream := Run.fails_streamNext (Q := .any) (F := IsRaw) fun _ => trivial
    have hfails := fails_loopNext hstream r s.toCells trivial
    rw [Step.toRun] at hnext
    split at hnext
    · cases hnext
    · rename_i e c hstep
      rw [hstep] at hfails
      cases e with
      | failure g =>
        cases hnext
        exact hfails.2
      | exhausted => cases hnext
  | later _ _ _ ih => exact ih

end Run

/-! ### Templates that are read -/

/-- Whether a failure is one of opening or reading a template, from a file or not. -/
def Failure.IsReading : Failure → Prop
  | parse _ | resource _ => True
  | _ => False

theorem ParseFailure.isReading {α : Type} {x : Except ParseFailure α} {f : Failure}
    (h : x.mapError ParseFailure.halt = .error (.failure f)) : f.IsReading := by
  cases x with
  | ok a => cases h
  | error e =>
    cases e with
    | error e =>
      cases h
      trivial
    | exhausted => cases h

namespace Store

variable {s : Store} {name : String} {f : Failure}

theorem isReading_of_textUnder {opener : Opener} (h : s.textUnder opener name = .error f) : f.IsReading := by
  cases opener with
  | noNames =>
    cases h
    trivial
  | texts =>
    rw [textUnder] at h
    split at h
    · cases h
    · cases h
      trivial
  | files root encoding =>
    rw [textUnder] at h
    cases hread : readFile s.files root encoding name with
    | ok text =>
      rw [hread] at h
      cases h
    | error e =>
      rw [hread] at h
      cases h
      trivial

theorem isReading_of_answer {r : LoaderRef} (h : s.answer r name = .error (.failure f)) : f.IsReading := by
  rw [answer] at h
  split at h
  · cases h
  · rw [readUnder] at h
    split at h
    · exact ParseFailure.isReading h
    · rename_i hread
      cases h
      exact isReading_of_textUnder hread

end Store

namespace Run

variable {α : Type} {f : Failure} {s s' : Store}

theorem isReading_of_gives {x : Except Halt Document} {s₁ : Store}
    (hx : ∀ g, x = .error (.failure g) → g.IsReading) (h : Gives x s₁ (.error (.failure f) s')) :
    f.IsReading := by
  cases h
  exact hx f rfl

theorem isReading_of_load {r : LoaderRef} {name : String} (h : load r name s = .error (.failure f) s') :
    f.IsReading := by
  obtain ⟨s₁, -, hgives⟩ := gives_load s r name
  rw [h] at hgives
  exact isReading_of_gives (fun _ => Store.isReading_of_answer) hgives

theorem isReading_of_parseText {r : LoaderRef} {resource : Option String} {text : String}
    (h : parseText r resource text s = .error (.failure f) s') : f.IsReading := by
  obtain ⟨s₁, -, -, hgives⟩ := gives_parseText s r resource text
  rw [h] at hgives
  exact isReading_of_gives (fun _ => ParseFailure.isReading) hgives

theorem mapFailure_eq_failure {g : Failure → Failure} {x : Run α}
    (h : mapFailure g x s = .error (.failure f) s') : ∃ e, x s = .error (.failure e) s' ∧ f = g e := by
  rw [mapFailure] at h
  cases hx : x s with
  | ok a s₁ =>
    rw [hx] at h
    cases h
  | error e s₁ =>
    rw [hx] at h
    cases e with
    | failure e =>
      cases h
      exact ⟨e, rfl, rfl⟩
    | _ => cases h

theorem andThen_eq_failure {x : Run α} {after : Store → Store}
    (h : andThen x after s = .error (.failure f) s') : ∃ s₁, x s = .error (.failure f) s₁ := by
  rw [andThen] at h
  split at h
  · cases h
  · cases h
    exact ⟨_, ‹_›⟩

theorem catchLeave_eq_failure {stops : Bool → Bool} {x : Run Unit}
    (h : catchLeave stops x s = .error (.failure f) s') : x s = .error (.failure f) s' := by
  rw [catchLeave] at h
  split at h
  · split at h <;> cases h
  · exact h

theorem capture_eq_failure {x : Run Unit} (h : capture x s = .error (.failure f) s') :
    ∃ s₁, x { s with written := "" } = .error (.failure f) s₁ := by
  rw [capture] at h
  split at h
  · cases h
  · cases h
    exact ⟨_, ‹_›⟩

/-- A failure of opening or reading a template becomes an evaluation error, or stays one of reading a resource. -/
theorem loadFailure_of_isReading (h : f.IsReading) (place : Place) :
    IsEvaluation (loadFailure place f) ∨ ∃ e, loadFailure place f = .resource e := by
  cases f with
  | parse e => exact .inl trivial
  | resource e =>
    rw [loadFailure]
    split
    · exact .inl trivial
    · exact .inr ⟨e, rfl⟩
  | _ => cases h

end Run

/-! ### What comes out as it is -/

/-- A loop that is begun from a store fails in taking an item. -/
def FailsToFetch {scope : Scope} (n : Nat) (x : String) (source : Source) (body : Script scope Unit) (s : Store)
    (f : Failure) : Prop :=
  Run.FetchFails scope x (s.beginLoop scope x source).1 (body.run (Deeper.within n)) f n
    (s.beginLoop scope x source).2.2.2

theorem FailsToFetch.fails {scope : Scope} {n : Nat} {x : String} {source : Source} {body : Script scope Unit}
    {s : Store} {f : Failure} (h : FailsToFetch n x source body s f) :
    ∃ s', (Script.loop x source body).run (Deeper.within n) s = .error (.failure f) s' := by
  obtain ⟨s₁, hiterate⟩ := Run.iterate_of_fetchFails h
  exact ⟨_, (Run.forEach_eq ..).trans (Run.andThen_of_error (Run.catchLeave_of_failure hiterate))⟩

/-- A failure of a run that nothing words: one of reading a resource, or one that a loop met when it took an item,
with nothing around it but the bodies of macros. -/
inductive ComesOutRaw {scope : Scope} {α : Type} (n : Nat) (x : Script scope α) (s : Store) :
    Failure → Prop
  | resource (e : ResourceError) : ComesOutRaw n x s (.resource e)
  | fetch {scope₁ : Scope} {name : String} {source : Source} {body : Script scope₁ Unit} {k : Nat} {s₁ : Store}
      {ls : List Layer} {f : Failure} :
      Reaches k (.loop name source body) s₁ ls n x s → (∀ l ∈ ls, ∃ m, l = .body m) →
      FailsToFetch k name source body s₁ f → ComesOutRaw n x s f

namespace ComesOutRaw

variable {scope scope₁ : Scope} {α β : Type} {k n : Nat} {x : Script scope α} {y : Script scope₁ β}
  {s s₁ : Store} {ls : List Layer} {f : Failure}

theorem isRaw (h : ComesOutRaw n x s f) : f.IsRaw := by
  cases h with
  | resource e => trivial
  | fetch _ _ hfetch => exact hfetch.isRaw

theorem of_reaches (h : ComesOutRaw k y s₁ f) (hx : Reaches k y s₁ ls n x s) (hls : ∀ l ∈ ls, ∃ m, l = .body m) :
    ComesOutRaw n x s f := by
  cases h with
  | resource e => exact .resource e
  | fetch hloop hbodies hfetch =>
    exact .fetch (hloop.trans hx) (fun l hl => (List.mem_append.1 hl).elim (hls l) (hbodies l)) hfetch

end ComesOutRaw

theorem Act.fails_or_resource {α : Type} {a : Act α} {F : Failure → Prop} {fuel : Nat} {scope : Scope} {s s' : Store}
    {f : Failure} (h : a.Fails .any F) (ha : a.run fuel scope s = .error (.failure f) s') :
    F f ∨ ∃ e, f = .resource e := by
  have hload {place : Place} {g : Failure} (hF : ∀ e, F (.evaluation e)) (hg : g.IsReading) :
      F (Run.loadFailure place g) ∨ ∃ e, Run.loadFailure place g = .resource e := by
    refine (Run.loadFailure_of_isReading hg place).imp_left fun hworded => ?_
    generalize Run.loadFailure place g = g' at hworded
    cases g' with
    | evaluation e => exact hF e
    | _ => cases hworded
  cases a with
  | step x =>
    have hx := h s.toCells trivial
    change x.toRun s = _ at ha
    rw [Step.toRun] at ha
    split at ha
    · cases ha
    · rename_i e c hstep
      rw [hstep] at hx
      cases e with
      | failure g =>
        cases ha
        exact .inl hx.2.1
      | exhausted => cases ha
  | load place name =>
    obtain ⟨g, hg, rfl⟩ := Run.mapFailure_eq_failure ha
    obtain hg | ⟨r, s₁, -, hg⟩ := Run.bind_eq_error.1 hg
    · cases hg
    · exact hload h (Run.isReading_of_load hg)
  | parse place text =>
    obtain ⟨g, hg, rfl⟩ := Run.mapFailure_eq_failure ha
    obtain hg | ⟨r, s₁, -, hg⟩ := Run.bind_eq_error.1 hg
    · cases hg
    · exact hload h (Run.isReading_of_parseText hg)
  | define body origin =>
    obtain ha | ⟨i, s₁, -, ha⟩ := Run.bind_eq_error.1 ha
    · cases ha
    · obtain ha | ⟨_, _, -, ha⟩ := Run.bind_eq_error.1 ha <;> cases ha
  | _ => cases ha

/-- Whether what is evaluated and rendered one level deeper fails with evaluation errors only, and the text of a
value with ordinary errors only, but for what comes out as it is. -/
structure Deeper.WordsFailures (n : Nat) : Prop where
  eval : ∀ {scope e s f s'}, (within n).eval scope e s = .error (.failure f) s' →
    IsEvaluation f ∨ ∃ m, n = m + 1 ∧ ComesOutRaw m (evalExpr scope e false) s f
  render : ∀ {scope nodes s f s'}, (within n).render scope nodes s = .error (.failure f) s' →
    IsEvaluation f ∨ ∃ m, n = m + 1 ∧ ComesOutRaw m (renderNodes scope nodes) s f
  text : ∀ {v s f s'}, (within n).text v s = .error (.failure f) s' →
    IsOrdinary f ∨ ∃ m, n = m + 1 ∧ ComesOutRaw m (textOf v : Script default String) s f

/-- One level: whatever a script fails with is of its kind, or it comes out as it is. -/
theorem Script.Fails.raw_step {scope : Scope} {α : Type} {F : Failure → Prop} {x : Script scope α} {n : Nat}
    {s s' : Store} {f : Failure} (hd : Deeper.WordsFailures n) (h : Script.Fails .any F x)
    (hx : x.run (Deeper.within n) s = .error (.failure f) s') : F f ∨ ComesOutRaw n x s f := by
  have hkind {F : Failure → Prop} {f : Failure} (hF : ∀ e, F (.evaluation e)) (hf : IsEvaluation f) : F f := by
    cases f with
    | evaluation e => exact hF e
    | _ => cases hf
  induction h generalizing s s' f with
  | done => cases hx
  | andThen _ _ ihx ihf =>
    obtain hx | ⟨b, s₁, hx, hf⟩ := Run.bind_eq_error.1 hx
    · exact (ihx hx).imp_right fun hraw => hraw.of_reaches (.first .here) (by simp)
    · exact (ihf b hf).imp_right fun hraw => hraw.of_reaches (.later hx .here) (by simp)
  | act ha =>
    refine (Act.fails_or_resource ha hx).imp_right ?_
    rintro ⟨e, rfl⟩
    exact .resource e
  | leave => cases hx
  | @read _ x hF =>
    change Run.read _ _ _ _ = _ at hx
    rw [Run.read_eq] at hx
    cases hlookup : s.lookup scope x with
    | argument c t =>
      rw [hlookup] at hx
      obtain hf | ⟨m, rfl, hraw⟩ := hd.eval hx
      · exact .inl (hkind hF hf)
      · exact .inr (hraw.of_reaches (.argument hlookup .here) (by simp))
    | _ =>
      rw [hlookup] at hx
      cases hx
  | assign =>
    obtain hx | ⟨_, _, -, hx⟩ := Run.bind_eq_error.1 hx <;> cases hx
  | capture _ ih =>
    obtain ⟨s₁, hx⟩ := Run.capture_eq_failure hx
    exact (ih hx).imp_right fun hraw => hraw.of_reaches (.capture .here) (by simp)
  | rethrow _ hworded hraws _ ih =>
    obtain ⟨e, hinner, rfl⟩ := Run.mapFailure_eq_failure hx
    exact .inl ((ih hinner).elim (hworded e) fun hraw => hraws e hraw.isRaw)
  | @loop _ x source body _ ih =>
    change Run.forEach .. = _ at hx
    rw [Run.forEach_eq] at hx
    obtain ⟨s₁, hx⟩ := Run.andThen_eq_failure hx
    obtain hfetch | ⟨ρ, hρ, hbody⟩ := Run.fetchFails_or_renders (Run.catchLeave_eq_failure hx)
    · exact .inr (.fetch .here (by simp) hfetch)
    · exact (ih hbody).imp_right fun hraw => hraw.of_reaches (.pass hρ .here) (by simp)
  | @call _ m args body hF =>
    change Run.renderMacro .. = _ at hx
    rw [Run.renderMacro_eq] at hx
    obtain ⟨s₁, hx⟩ := Run.andThen_eq_failure hx
    obtain ⟨e, hinner, rfl⟩ := Run.mapFailure_eq_failure hx
    obtain he | ⟨k, rfl, hraw⟩ := hd.render hinner
    · refine .inl (hkind hF ?_)
      cases e <;> trivial
    · have htraced : Run.traced m e = e := by
        have hkept := hraw.isRaw
        cases e <;> first | rfl | cases hkept
      rw [htraced]
      exact .inr (hraw.of_reaches (.call .here) (by simp))
  | @template _ t hF =>
    obtain hx | ⟨_, s₁, hmacros, hx⟩ := Run.bind_eq_error.1 hx
    · cases hx
    · cases hmacros
      obtain hf | ⟨m, rfl, hraw⟩ := hd.render (Run.catchLeave_eq_failure hx)
      · exact .inl (hkind hF hf)
      · exact .inr (hraw.of_reaches (.template .here) (by simp))
  | @block _ b hF =>
    obtain hx | ⟨_, s₁, hblock, hx⟩ := Run.bind_eq_error.1 hx
    · cases hx
    · cases hblock
      obtain ⟨s₂, hx⟩ := Run.capture_eq_failure hx
      obtain hf | ⟨m, rfl, hraw⟩ := hd.render hx
      · exact .inl (hkind hF hf)
      · exact .inr (hraw.of_reaches (.block .here) (by simp))
  | @text _ v hF =>
    obtain hf | ⟨m, rfl, hraw⟩ := hd.text hx
    · exact .inl (hF f hf)
    · exact .inr (hraw.of_reaches (.text .here) (by simp))

/-- However many levels are left, nothing else comes out as it is. -/
theorem Deeper.wordsFailures (n : Nat) : Deeper.WordsFailures n := by
  induction n with
  | zero => exact ⟨fun h => (nomatch h), fun h => (nomatch h), fun h => (nomatch h)⟩
  | succ n ih =>
    exact ⟨fun h => ((fails_evalExpr _ false).raw_step ih h).imp_right fun hraw => ⟨n, rfl, hraw⟩,
      fun h => ((fails_renderNodes _).raw_step ih h).imp_right fun hraw => ⟨n, rfl, hraw⟩,
      fun h => ((fails_textOf _).raw_step ih h).imp_right fun hraw => ⟨n, rfl, hraw⟩⟩

/-- Whatever a script fails with is of its kind, or it comes out as it is. -/
theorem Script.Fails.raw {scope : Scope} {α : Type} {F : Failure → Prop} {x : Script scope α} {n : Nat}
    {s s' : Store} {f : Failure} (h : Script.Fails .any F x)
    (hx : x.run (Deeper.within n) s = .error (.failure f) s') : F f ∨ ComesOutRaw n x s f :=
  h.raw_step (Deeper.wordsFailures n) hx

namespace Template

/-- A failure of an evaluation of a template that nothing words. -/
def ComesOutRaw (t : Template) (n : Nat) (vars : Bindings Value) (host : HostKind) (s : Store) (f : Failure) : Prop :=
  Stencil.ComesOutRaw n (renderNodes (s.enterRoot ⟨vars, t.macros, host, t.loader⟩).1 t.document.nodes)
    { (s.enterRoot ⟨vars, t.macros, host, t.loader⟩).2 with written := "" } f

end Template

end Stencil
