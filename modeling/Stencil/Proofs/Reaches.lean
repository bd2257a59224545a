import Stencil.Proofs.Progress
import Stencil.Proofs.Renderings

/-!
# What is begun in the middle of a run

Carrying out a script begins others: its parts, arguments, the bodies of macros and blocks, templates. `Reaches`
says that a script is begun from a store in the middle of a run, and what stands between them that words
failures anew: the uses of host values and the macros under way. A failure of what is begun is one of the
whole: `Reaches.fails`. Its events are among those of the whole, in one piece: `Reaches.events`.
-/

namespace Stencil

/-- What a failure passes on its way out of a run, outermost first: a step that words failures anew, or the
body of a macro. -/
inductive Layer where
  | rethrow (f : Failure → Failure)
  | body (m : MacroDef)

namespace Layer

/-- What becomes of a failure that passes a layer. -/
def change : Layer → Failure → Failure
  | rethrow f => f
  | body m => Run.traced m

/-- What becomes of a failure that passes layers. -/
def through (ls : List Layer) (f : Failure) : Failure :=
  ls.foldr change f

/-- What the macros among layers add to the trace of an evaluation error. -/
def steps (ls : List Layer) : List MacroStep :=
  ls.filterMap fun
    | rethrow _ => none
    | body m => some ⟨m.name, m.place.line⟩

end Layer

open Layer (through steps)

/-- A script is begun from a store, with so many levels of fuel, in the middle of carrying out another one.
What words a failure anew leaves evaluation errors as they are. -/
inductive Reaches {scope₁ : Scope} {β : Type} (k : Nat) (y : Script scope₁ β) (s₁ : Store) :
    List Layer → Nat → {scope : Scope} → {α : Type} → Script scope α → Store → Prop where
  | here : Reaches k y s₁ [] k y s₁
  | first {ls n scope α γ s} {x : Script scope γ} {f : γ → Script scope α} :
      Reaches k y s₁ ls n x s → Reaches k y s₁ ls n (.andThen x f) s
  | later {ls n scope α γ s s' a} {x : Script scope γ} {f : γ → Script scope α} :
      x.run (Deeper.within n) s = .ok a s' → Reaches k y s₁ ls n (f a) s' →
      Reaches k y s₁ ls n (.andThen x f) s
  | argument {ls n scope s x c t} :
      s.lookup scope x = .argument c t → Reaches k y s₁ ls n (evalExpr t.scope t.expr false) s →
      Reaches k y s₁ ls (n + 1) (.read x : Script scope Value) s
  | capture {ls n scope s} {x : Script scope Unit} :
      Reaches k y s₁ ls n x { s with written := "" } → Reaches k y s₁ ls n (.capture x) s
  | rethrow {ls n scope α s f} {x : Script scope α} :
      (∀ e, f (.evaluation e) = .evaluation e) → Reaches k y s₁ ls n x s →
      Reaches k y s₁ (.rethrow f :: ls) n (.rethrow f x) s
  | pass {ls n scope s x source} {body : Script scope Unit} {ρ : Rendering} :
      ρ ∈ Run.renderings scope x (s.beginLoop scope x source).1 (body.run (Deeper.within n)) n
        (s.beginLoop scope x source).2.2.2 →
      Reaches k y s₁ ls n body ρ.start → Reaches k y s₁ ls n (.loop x source body) s
  | call {ls n scope s m args body} :
      Reaches k y s₁ ls n (renderNodes (scope.enter (s.beginCall scope m args body).1) m.body)
        (s.beginCall scope m args body).2 →
      Reaches k y s₁ (.body m :: ls) (n + 1) (.call m args body : Script scope Unit) s
  | template {ls n scope s t} :
      Reaches k y s₁ ls n (renderNodes scope t.document.nodes) (s.addMacros scope.root t.macros) →
      Reaches k y s₁ ls (n + 1) (.template t : Script scope Unit) s
  | block {ls n scope s b} :
      Reaches k y s₁ ls n (renderNodes (s.block b).scope (s.block b).body) { s with written := "" } →
      Reaches k y s₁ ls (n + 1) (.block b : Script scope String) s
  | text {ls n scope s v} :
      Reaches k y s₁ ls n (textOf v : Script default String) s →
      Reaches k y s₁ ls (n + 1) (.text v : Script scope String) s

/-! ### Failures -/

namespace Layer

variable {ls : List Layer} {f : Failure}

@[simp] theorem through_cons (l : Layer) (ls : List Layer) (f : Failure) :
    through (l :: ls) f = l.change (through ls f) := rfl

/-- Whether evaluation errors pass a layer with no more than a step added to their traces. -/
def Traces (l : Layer) : Prop :=
  ∀ e, l.change (.evaluation e) = .evaluation { e with trace := steps [l] ++ e.trace }

theorem traces_body (m : MacroDef) : (body m).Traces := fun _ => rfl

theorem traces_rethrow {f : Failure → Failure} (hf : ∀ e, f (.evaluation e) = .evaluation e) :
    (rethrow f).Traces := hf

/-- An evaluation error gets the macros that it passes in front of its trace, and stays the same
otherwise. -/
theorem through_evaluation (h : ∀ l ∈ ls, l.Traces) (e : EvalError) :
    through ls (.evaluation e) = .evaluation { e with trace := steps ls ++ e.trace } := by
  induction ls with
  | nil => rfl
  | cons l ls ih =>
    rw [through_cons, ih fun l hl => h l (List.mem_cons_of_mem _ hl), h l List.mem_cons_self]
    cases l <;> rfl

end Layer

namespace Run

variable {α β : Type} {s s' : Store} {f : Failure}

/-- A failure in a rendering of its body ends a loop. -/
theorem iterate_of_mem_renderings {scope : Scope} {x : String} {r : LoopRef} {body : Run Unit}
    {ρ : Rendering} {n : Nat} (hρ : ρ ∈ renderings scope x r body n s)
    (hbody : body ρ.start = .error (.failure f) s') :
    iterate scope x r body n s = .error (.failure f) s' := by
  have hruns := renders_iterate scope x r body n s
  revert hruns hρ
  generalize renderings scope x r body n s = ρs
  generalize iterate scope x r body n s = result
  intro hρ hruns
  induction hruns with
  | exhausted | done | failed => cases hρ
  | stopped _ hstop =>
    obtain rfl := List.mem_singleton.1 hρ
    exact hstop.symm.trans hbody
  | further _ hgo _ ih =>
    rcases List.mem_cons.1 hρ with rfl | hρ
    · exact absurd (hgo.symm.trans hbody) (by simp)
    · exact ih hρ

theorem mapFailure_of_failure {g : Failure → Failure} {x : Run α}
    (h : x s = .error (.failure f) s') : mapFailure g x s = .error (.failure (g f)) s' := by
  rw [mapFailure, h]

theorem andThen_of_error {x : Run α} {after : Store → Store} {e : Halt} (h : x s = .error e s') :
    andThen x after s = .error e (after s') := by
  rw [andThen, h]

theorem catchLeave_of_failure {stops : Bool → Bool} {x : Run Unit}
    (h : x s = .error (.failure f) s') : catchLeave stops x s = .error (.failure f) s' := by
  rw [catchLeave, h]

theorem endBreaks_of_failure {x : Run Unit} (h : x s = .error (.failure f) s') :
    endBreaks x s = .error (.failure f) s' := by
  rw [endBreaks, h]

end Run

namespace Reaches

variable {scope scope₁ : Scope} {α β : Type} {k n : Nat} {x : Script scope α} {y : Script scope₁ β}
  {s s₁ : Store} {ls : List Layer}

/-- What is begun in the middle of what is begun in the middle of a run. -/
theorem trans {scope₂ : Scope} {γ : Type} {j : Nat} {z : Script scope₂ γ} {s₂ : Store} {ls' : List Layer}
    (h : Reaches j z s₂ ls' k y s₁) (h' : Reaches k y s₁ ls n x s) : Reaches j z s₂ (ls ++ ls') n x s := by
  induction h' with
  | here => exact h
  | first _ ih => exact .first ih
  | later hx _ ih => exact .later hx ih
  | argument hx _ ih => exact .argument hx ih
  | capture _ ih => exact .capture ih
  | rethrow hf _ ih => exact .rethrow hf ih
  | pass hρ _ ih => exact .pass hρ ih
  | call _ ih => exact .call ih
  | template _ ih => exact .template ih
  | block _ ih => exact .block ih
  | text _ ih => exact .text ih

/-- What is on the way out of a run adds to the traces of evaluation errors and leaves them alone
otherwise. -/
theorem traces (h : Reaches k y s₁ ls n x s) : ∀ l ∈ ls, l.Traces := by
  induction h with
  | here => simp
  | first _ ih | later _ _ ih | argument _ _ ih | capture _ ih | pass _ _ ih | template _ ih | block _ ih
  | text _ ih => exact ih
  | rethrow hf _ ih => exact List.forall_mem_cons.2 ⟨Layer.traces_rethrow hf, ih⟩
  | call _ ih => exact List.forall_mem_cons.2 ⟨Layer.traces_body _, ih⟩

/-- A failure of what is begun in the middle of a run is one of the run, as it comes through. -/
theorem fails {f : Failure} {s' : Store} (h : Reaches k y s₁ ls n x s)
    (hy : y.run (Deeper.within k) s₁ = .error (.failure f) s') :
    ∃ t, x.run (Deeper.within n) s = .error (.failure (through ls f)) t := by
  induction h with
  | here => exact ⟨_, hy⟩
  | first _ ih =>
    obtain ⟨t, ht⟩ := ih
    exact ⟨t, Run.bind_eq_error.2 (.inl ht)⟩
  | later hx _ ih =>
    obtain ⟨t, ht⟩ := ih
    exact ⟨t, Run.bind_eq_error.2 (.inr ⟨_, _, hx, ht⟩)⟩
  | argument hx _ ih =>
    obtain ⟨t, ht⟩ := ih
    refine ⟨t, ?_⟩
    show Run.read _ _ _ _ = _
    rw [Run.read_eq, hx]
    exact ht
  | capture _ ih =>
    obtain ⟨t, ht⟩ := ih
    exact ⟨_, Run.capture_of_error ht⟩
  | rethrow _ _ ih =>
    obtain ⟨t, ht⟩ := ih
    exact ⟨t, Run.mapFailure_of_failure ht⟩
  | pass hρ _ ih =>
    obtain ⟨t, ht⟩ := ih
    have hloop := Run.iterate_of_mem_renderings hρ ht
    exact ⟨_, (Run.forEach_eq ..).trans (Run.andThen_of_error (Run.catchLeave_of_failure hloop))⟩
  | call _ ih =>
    obtain ⟨t, ht⟩ := ih
    exact ⟨_, (Run.renderMacro_eq ..).trans (Run.andThen_of_error (Run.mapFailure_of_failure ht))⟩
  | template _ ih =>
    obtain ⟨t, ht⟩ := ih
    exact ⟨t, Run.catchLeave_of_failure ht⟩
  | block _ ih =>
    obtain ⟨t, ht⟩ := ih
    exact ⟨_, Run.capture_of_error ht⟩
  | text _ ih => exact ih

/-- An evaluation error in the middle of a run comes out of it with the macros under way in front of its
trace. -/
theorem fails_evaluation {e : EvalError} {s' : Store} (h : Reaches k y s₁ ls n x s)
    (hy : y.run (Deeper.within k) s₁ = .error (.failure (.evaluation e)) s') :
    ∃ t, x.run (Deeper.within n) s =
      .error (.failure (.evaluation { e with trace := steps ls ++ e.trace })) t := by
  rw [← Layer.through_evaluation h.traces]
  exact h.fails hy

end Reaches

namespace Template

/-- The nodes of a template are rendered in the scope of an evaluation, from the store in which that begins,
and in the middle of this another script is begun. -/
def Reaches {scope₁ : Scope} {β : Type} (k : Nat) (y : Script scope₁ β) (s₁ : Store) (ls : List Layer)
    (n : Nat) (t : Template) (vars : Bindings Value) (host : HostKind) (s : Store) : Prop :=
  Stencil.Reaches k y s₁ ls n
    (renderNodes (s.enterRoot ⟨vars, t.macros, host, t.loader⟩).1 t.document.nodes)
    { (s.enterRoot ⟨vars, t.macros, host, t.loader⟩).2 with written := "" }

variable {scope₁ : Scope} {β : Type} {k n : Nat} {y : Script scope₁ β} {s s₁ s' : Store} {ls : List Layer}
  {t : Template} {vars : Bindings Value} {host : HostKind}

/-- A failure in the middle of an evaluation is one of the evaluation, as it comes through. -/
theorem fails_of_reaches {f : Failure} (h : t.Reaches k y s₁ ls n vars host s)
    (hy : y.run (Deeper.within k) s₁ = .error (.failure f) s') :
    ∃ s', t.evaluateWithin (n + 1) vars host s = .error (.failure (through ls f)) s' := by
  obtain ⟨s₂, h₂⟩ := h.fails hy
  have hends := Run.endBreaks_of_failure (x := renderWithin (n + 1) _ t.document.nodes) h₂
  exact ⟨_, (Run.bind_ok rfl).trans (Run.capture_of_error hends)⟩

end Template

/-! ### Events -/

/-- Whether some events from a store on are others from another store on in one piece. -/
def IsPiece (s₁ : Store) (es₁ : List Event) (s : Store) (es : List Event) : Prop :=
  ∃ before after, es = before ++ es₁ ++ after ∧ s.follow before = s₁

namespace IsPiece

variable {s s₀ s₁ : Store} {es es₁ : List Event}

theorem refl (s : Store) (es : List Event) : IsPiece s es s es :=
  ⟨[], [], by simp, rfl⟩

/-- A piece of events is one of what happens around them. -/
theorem between (h : IsPiece s₁ es₁ s es) {before : List Event} (after : List Event)
    (hbefore : s₀.follow before = s) : IsPiece s₁ es₁ s₀ (before ++ (es ++ after)) := by
  obtain ⟨before', after', rfl, hfollow⟩ := h
  refine ⟨before ++ before', after' ++ after, by simp, ?_⟩
  rw [Store.follow_append, hbefore, hfollow]

theorem first (h : IsPiece s₁ es₁ s es) (after : List Event) : IsPiece s₁ es₁ s (es ++ after) := by
  have := @between _ s _ _ _ h [] after rfl
  rwa [List.nil_append] at this

theorem trans {s₂ : Store} {es₂ : List Event} (h : IsPiece s₂ es₂ s₁ es₁) (h' : IsPiece s₁ es₁ s es) :
    IsPiece s₂ es₂ s es := by
  obtain ⟨before, after, rfl, hfollow⟩ := h'
  have := h.between after hfollow
  rwa [← List.append_assoc] at this

theorem last (h : IsPiece s₁ es₁ s es) {before : List Event} (hbefore : s₀.follow before = s) :
    IsPiece s₁ es₁ s₀ (before ++ es) := by
  have := h.between [] hbefore
  rwa [List.append_nil] at this

end IsPiece

namespace Run

/-- The events of a rendering are a piece of those of the passes. -/
theorem isPiece_passEvents {scope : Scope} {x : String} {r : LoopRef} {body : Run Unit}
    {events : Store → List Event} (hevents : ∀ s, s.follow (events s) = body.after s) {ρ : Rendering}
    {n : Nat} {s : Store} (hρ : ρ ∈ renderings scope x r body n s) :
    IsPiece ρ.start (events ρ.start) s (passEvents scope x r body events n s) := by
  induction n generalizing s with
  | zero => cases hρ
  | succ n ih =>
    rw [renderings] at hρ
    rw [passEvents]
    cases hnext : (loopNext r).toRun s with
    | error e s₁ =>
      rw [hnext] at hρ
      cases hρ
    | ok v s₁ =>
      rw [hnext] at hρ
      cases v with
      | none => cases hρ
      | some v =>
        have hstart : s.follow [.loopNext r, .assign scope x v] = (s₁.assign scope x v).2 := by
          simp only [Store.follow_cons, Store.follow_nil, Event.effect, after, hnext]
        rcases List.mem_cons.1 hρ with rfl | hρ
        · exact (IsPiece.refl _ _).between _ hstart
        · cases hbody : body (s₁.assign scope x v).2 with
          | error e s₂ =>
            rw [hbody] at hρ
            cases hρ
          | ok a s₂ =>
            rw [hbody] at hρ
            have hpass : s.follow ([.loopNext r, .assign scope x v] ++ events (s₁.assign scope x v).2) = s₂ := by
              rw [Store.follow_append, hstart, hevents, after, hbody]
            have := (ih hρ).last hpass
            rw [List.append_assoc] at this
            simpa only [hbody, List.cons_append, List.nil_append] using this

end Run

namespace Reaches

variable {scope scope₁ : Scope} {α β : Type} {k n : Nat} {x : Script scope α} {y : Script scope₁ β}
  {s s₁ : Store} {ls : List Layer}

/-- What happens in what is begun in the middle of a run happens in the run, in one piece. -/
theorem events (h : Reaches k y s₁ ls n x s) : IsPiece s₁ (y.events k s₁) s (x.events n s) := by
  induction h with
  | here => exact .refl _ _
  | first _ ih =>
    rw [Script.events_andThen]
    exact ih.first _
  | @later ls n scope α γ s s' a x f hx _ ih =>
    rw [Script.events_andThen, hx]
    refine ih.last ?_
    rw [Script.follow_events, Run.after, hx]
  | argument hx _ ih =>
    rw [Script.events_read, hx]
    exact ih
  | capture _ ih =>
    rw [Script.events_capture]
    exact ih.between _ rfl
  | rethrow _ _ ih =>
    rw [Script.events_rethrow]
    exact ih
  | @pass ls n scope s x source body ρ hρ _ ih =>
    rw [Script.events_loop]
    have hpass := Run.isPiece_passEvents (fun s => Script.follow_events n body s) hρ
    exact (ih.trans hpass).between _ rfl
  | call _ ih =>
    rw [Script.events_call]
    exact ih.between _ rfl
  | template _ ih =>
    rw [Script.events_template]
    exact ih.last rfl
  | block _ ih =>
    rw [Script.events_block]
    exact ih.between _ rfl
  | text _ ih =>
    rw [Script.events_text]
    exact ih

end Reaches

/-! ### What is carried to where a script is begun -/

/-- What holds of a scope and a store wherever a script is begun from a store, if it does at the start. -/
structure Carried (P : Scope → Store → Prop) : Prop where
  runs : ∀ {scope : Scope} {α : Type} (x : Script scope α) (n : Nat) (s : Store), P scope s →
    P scope ((x.run (Deeper.within n)).after s)
  argument : ∀ {scope : Scope} {s : Store} {x : String} {c : CallRef} {t : Thunk}, P scope s →
    s.lookup scope x = .argument c t → P t.scope s
  block : ∀ {scope : Scope} {s : Store} (b : BlockRef), P scope s → P (s.block b).scope s
  default : ∀ {scope : Scope} {s : Store}, P scope s → P default s
  written : ∀ {scope : Scope} {s : Store} (text : String), P scope s → P scope { s with written := text }
  beginLoop : ∀ {scope : Scope} {s : Store} (x : String) (source : Source), P scope s →
    P scope (s.beginLoop scope x source).2.2.2
  take : ∀ {scope : Scope} {s s' : Store} (x : String) {r : LoopRef} {v : Value}, P scope s →
    (Run.loopNext r).toRun s = .ok (some v) s' → P scope (s'.assign scope x v).2
  call : ∀ {scope : Scope} {s : Store} (m : MacroDef) (args : List Expr) (body : Option (List Node)),
    P scope s → P (scope.enter (s.beginCall scope m args body).1) (s.beginCall scope m args body).2
  template : ∀ {scope : Scope} {s : Store} (ms : List MacroDef), P scope s →
    P scope (s.addMacros scope.root ms)

namespace Carried

variable {P : Scope → Store → Prop} {scope scope₁ : Scope} {α β : Type} {k n : Nat} {x : Script scope α}
  {y : Script scope₁ β} {s s₁ : Store} {ls : List Layer}

/-- What is carried along holds in every pass of a loop. -/
theorem rendering (hP : Carried P) {x : String} {r : LoopRef} {body : Script scope Unit}
    {ρ : Rendering} {l : Nat} (h : P scope s)
    (hρ : ρ ∈ Run.renderings scope x r (body.run (Deeper.within n)) l s) : P scope ρ.start := by
  induction l generalizing s with
  | zero => cases hρ
  | succ l ih =>
    rw [Run.renderings] at hρ
    split at hρ
    · rename_i v s₁ hnext
      have hstart := hP.take x h hnext
      rcases List.mem_cons.1 hρ with rfl | hρ
      · exact hstart
      · split at hρ
        · rename_i a s₂ hbody
          have hafter := hP.runs body n _ hstart
          rw [Run.after, hbody] at hafter
          exact ih hafter hρ
        · cases hρ
    · cases hρ

/-- What is carried along holds wherever a script is begun. -/
theorem reaches (hP : Carried P) (h : Reaches k y s₁ ls n x s) (hs : P scope s) : P scope₁ s₁ := by
  induction h with
  | here => exact hs
  | first _ ih => exact ih hs
  | @later ls n scope α γ s s' a x f hx _ ih =>
    have hafter := hP.runs x n s hs
    rw [Run.after, hx] at hafter
    exact ih hafter
  | argument hx _ ih => exact ih (hP.argument hs hx)
  | capture _ ih => exact ih (hP.written "" hs)
  | rethrow _ _ ih => exact ih hs
  | pass hρ _ ih => exact ih (hP.rendering (hP.beginLoop _ _ hs) hρ)
  | call _ ih => exact ih (hP.call _ _ _ hs)
  | template _ ih => exact ih (hP.template _ hs)
  | block _ ih => exact ih (hP.written "" (hP.block _ hs))
  | text _ ih => exact ih (hP.default hs)

end Carried

namespace Store

/-- A sound store, and everything that evaluation keeps since another one. -/
theorem carried_progress (s₀ : Store) :
    Carried fun scope s => Progress s₀ s ∧ scope.Valid s := by
  have hgo {scope : Scope} {s s' : Store} (h : Progress s₀ s ∧ scope.Valid s) (hp : Progress s s') :
      Progress s₀ s' ∧ scope.Valid s' := ⟨h.1.trans hp, h.2.mono hp.grows⟩
  refine ⟨?_, ?_, ?_, ?_, ?_, ?_, ?_, ?_, ?_⟩
  · exact fun x n s h => hgo h (x.progress n h.1.sound h.2)
  · exact fun h hx => ⟨h.1, h.1.sound.valid_argument hx⟩
  · exact fun b h => ⟨h.1, h.1.sound.valid_block h.2 b⟩
  · exact fun h => ⟨h.1, valid_default h.2⟩
  · exact fun text h => hgo h (.written h.1.sound h.2 text)
  · exact fun x source h => hgo h (.beginLoop x source h.1.sound h.2)
  · intro scope s s' x r v h hnext
    have htaken : Progress s s' := by
      have hframes := (Run.Apart.toRun (Run.loopNext r) : Run.Apart scope _) s
      rw [Run.after, hnext] at hframes
      exact .of_sameFrames h.1.sound h.2 hframes
    have h' := hgo h htaken
    exact hgo h' (.assign h'.1.sound scope x v h'.2.root)
  · exact fun m args body h => ⟨h.1.trans (.beginCall m args body h.1.sound h.2), Valid.enter m args body h.2⟩
  · exact fun ms h => hgo h (.addMacros h.1.sound _ ms)

/-- Where a script is begun in the middle of an evaluation the store is sound and the scope exists. -/
theorem Sound.reached {scope₁ : Scope} {β : Type} {k n : Nat} {y : Script scope₁ β} {s s₁ : Store}
    {ls : List Layer} {t : Template} {vars : Bindings Value} {host : HostKind} (hs : s.Sound)
    (h : t.Reaches k y s₁ ls n vars host s) : s₁.Sound ∧ scope₁.Valid s₁ := by
  obtain ⟨hsound, hvalid⟩ := hs.enterRoot ⟨vars, t.macros, host, t.loader⟩
  have hwritten := Progress.written hsound hvalid ""
  obtain ⟨hprogress, hv⟩ := (carried_progress _).reaches h ⟨hwritten, hvalid.mono hwritten.grows⟩
  exact ⟨hprogress.sound, hv⟩

end Store

end Stencil
