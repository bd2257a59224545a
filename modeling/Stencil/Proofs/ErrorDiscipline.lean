import Stencil.Proofs.After
import Stencil.Proofs.Break
import Stencil.Proofs.Failures

/-!
# Evaluation fails with evaluation errors

In a store where no stream fails and no loader reads files, an evaluation of a template gives a text or stops
with an evaluation error, unless it runs out of fuel: no access error, no error of host code, of reading a
template or of opening one, and no break gets out of it. `Script.Fails.run` carries the failures of a script
over to its runs, and what is rendered one level deeper fails alike by induction on the levels.
-/

namespace Stencil

open Failure (IsEvaluation IsOrdinary)

/-- Whether an opener reads no files. -/
def Opener.InMemory : Opener → Prop
  | files .. => False
  | _ => True

namespace Store

/-- Whether no stream of a store ends with a failure, and no loader reads files. -/
structure Calm (s : Store) : Prop where
  streams : s.toCells.Calm
  loaders : ∀ i, (s.loaders.get i).opener.InMemory

variable {s s' : Store}

theorem Calm.congr (h : s.Calm) (hstreams : s'.streams = s.streams) (hloaders : s'.loaders = s.loaders) :
    s'.Calm := by
  refine ⟨fun i => ?_, fun i => ?_⟩
  · rw [hstreams]
    exact h.streams i
  · rw [hloaders]
    exact h.loaders i

theorem Calm.assign (h : s.Calm) (scope : Scope) (x : String) (v : Value) : (s.assign scope x v).2.Calm := by
  rw [Store.assign]
  generalize scope.calls = calls
  induction calls generalizing s with
  | nil => exact h.congr rfl rfl
  | cons c cs ih =>
    cases hc : s.arg x c with
    | none =>
      rw [assignIn_cons_of_none hc]
      exact ih h
    | some t =>
      rw [assignIn_cons_of_some hc]
      have hhide : (s.hide c x).Calm := h.congr rfl rfl
      exact (ih hhide).congr rfl rfl

theorem Calm.undo (h : s.Calm) (u : Undo) : (Store.undo u s).Calm := by
  induction u generalizing s with
  | rebind r x former => cases former <;> exact h.congr rfl rfl
  | unhide k inner ih =>
    rw [undo_unhide]
    split
    · exact h
    · have hfinish : (s.finish k).Calm := h.congr rfl rfl
      exact (ih hfinish).congr rfl rfl

theorem Calm.restoreParams (h : s.Calm) (c : CallRef) : (s.restoreParams c).Calm := by
  have hundo : ∀ (us : List Undo) (s : Store), s.Calm → (us.foldl (fun s u => Store.undo u s) s).Calm := by
    intro us
    induction us with
    | nil => exact fun _ hs => hs
    | cons u us ih => exact fun s hs => ih _ (hs.undo u)
  exact hundo _ _ (h.congr rfl rfl)

end Store

/-- Whether a step of evaluation that begins in a calm store stops with failures of a kind only, and leaves a
calm store. -/
def Run.Fails {α : Type} (F : Failure → Prop) (x : Run α) : Prop :=
  ∀ s : Store, s.Calm → match x s with
    | .ok _ s' => s'.Calm
    | .error (.failure f) s' => s'.Calm ∧ F f
    | .error _ s' => s'.Calm

namespace Run

variable {α β : Type} {F G : Failure → Prop}

theorem Fails.mono {x : Run α} (h : Fails F x) (hFG : ∀ f, F f → G f) : Fails G x := by
  intro s hs
  have hx := h s hs
  split at hx
  · exact hx
  · exact ⟨hx.1, hFG _ hx.2⟩
  · exact hx

theorem Fails.pure (a : α) : Fails F (Pure.pure a : Run α) := fun _ hs => hs

theorem Fails.exhausted : Fails F (exhausted : Run α) := fun _ hs => hs

theorem Fails.leave (p : Place) (b : Bool) : Fails F (throw (.leave p b) : Run α) := fun _ hs => hs

theorem Fails.fail {f : Failure} (h : F f) : Fails F (fail f : Run α) := fun _ hs => ⟨hs, h⟩

theorem Fails.modifyGet {f : Store → α × Store} (h : ∀ s, s.Calm → (f s).2.Calm) :
    Fails F (modifyGet f : Run α) := h

theorem Fails.modify {f : Store → Store} (h : ∀ s, s.Calm → (f s).Calm) : Fails F (modify f : Run PUnit) := h

theorem Fails.bind {x : Run β} {f : β → Run α} (hx : Fails F x) (hf : ∀ b, Fails F (f b)) :
    Fails F (x >>= f) := by
  intro s hs
  have h := hx s hs
  show match EStateM.bind x f s with
    | .ok _ s' => s'.Calm
    | .error (.failure f) s' => s'.Calm ∧ F f
    | .error _ s' => s'.Calm
  rw [EStateM.bind]
  cases hxs : x s with
  | ok b s' =>
    rw [hxs] at h
    exact hf b s' h
  | error e s' =>
    rw [hxs] at h
    cases e <;> exact h

theorem Fails.map {x : Run β} (f : β → α) (hx : Fails F x) : Fails F (f <$> x) := by
  rw [map_eq_pure_bind]
  exact .bind hx fun _ => .pure _

/-- What a step does with the state it reads may rest on the state being calm. -/
theorem Fails.get_bind {f : Store → Run α} (h : ∀ s, s.Calm → Fails F (f s)) : Fails F (get >>= f) :=
  fun s hs => h s hs s hs

theorem Fails.toRun {x : Step α} (h : x.Fails .calm F) : Fails F x.toRun := by
  intro s hs
  have hx := h s.toCells hs.streams
  rw [Step.toRun]
  cases hxs : x s.toCells with
  | ok a cells =>
    rw [hxs] at hx
    exact ⟨hx, hs.loaders⟩
  | error e cells =>
    rw [hxs] at hx
    cases e with
    | failure f => exact ⟨⟨hx.1, hs.loaders⟩, hx.2⟩
    | exhausted => exact ⟨hx, hs.loaders⟩

theorem Fails.mapFailure {x : Run α} {f : Failure → Failure} (hx : Fails G x) (hf : ∀ e, G e → F (f e)) :
    Fails F (mapFailure f x) := by
  intro s hs
  have h := hx s hs
  rw [Run.mapFailure]
  rcases hxs : x s with ⟨a, s'⟩ | ⟨e, s'⟩ <;> rw [hxs] at h
  · exact h
  · cases e with
    | failure e => exact ⟨h.1, hf e h.2⟩
    | leave p b => exact h
    | exhausted => exact h

theorem Fails.andThen {x : Run α} {after : Store → Store} (hx : Fails F x)
    (hafter : ∀ s, s.Calm → (after s).Calm) : Fails F (andThen x after) := by
  intro s hs
  have h := hx s hs
  rw [Run.andThen]
  rcases hxs : x s with ⟨a, s'⟩ | ⟨e, s'⟩ <;> rw [hxs] at h
  · exact hafter s' h
  · cases e with
    | failure e => exact ⟨hafter s' h.1, h.2⟩
    | leave p b => exact hafter s' h
    | exhausted => exact hafter s' h

theorem Fails.catchLeave {x : Run Unit} (stops : Bool → Bool) (hx : Fails F x) :
    Fails F (catchLeave stops x) := by
  intro s hs
  have h := hx s hs
  rw [Run.catchLeave]
  rcases hxs : x s with ⟨a, s'⟩ | ⟨e, s'⟩ <;> rw [hxs] at h
  · exact h
  · cases e with
    | failure e => exact h
    | leave p b => by_cases hb : stops b <;> simpa [hb] using h
    | exhausted => exact h

theorem Fails.capture {x : Run Unit} (hx : Fails F x) : Fails F (capture x) := by
  intro s hs
  have h := hx { s with written := "" } (hs.congr rfl rfl)
  rw [Run.capture]
  rcases hxs : x { s with written := "" } with ⟨a, s'⟩ | ⟨e, s'⟩ <;> rw [hxs] at h
  · exact h.congr rfl rfl
  · cases e with
    | failure e => exact ⟨h.1.congr rfl rfl, h.2⟩
    | leave p b => exact h.congr rfl rfl
    | exhausted => exact h.congr rfl rfl

/-- A break that is meant for a loop is an evaluation error where the evaluation ends. -/
theorem Fails.endBreaks {x : Run Unit} (hx : Fails IsEvaluation x) : Fails IsEvaluation (endBreaks x) := by
  intro s hs
  have h := hx s hs
  rw [Run.endBreaks]
  rcases hxs : x s with ⟨a, s'⟩ | ⟨e, s'⟩ <;> rw [hxs] at h
  · exact h
  · cases e with
    | failure e => exact h
    | leave p b =>
      cases b with
      | true => exact ⟨h, trivial⟩
      | false => exact h
    | exhausted => exact h

/-! ### Templates that are read -/

/-- Whether a failure is one of opening or reading a template. -/
def IsLoading : Failure → Prop
  | .parse _ => True
  | .resource e => e.isOpening = true
  | _ => False

theorem IsLoading.isEvaluation {f : Failure} (h : IsLoading f) (place : Place) :
    IsEvaluation (loadFailure place f) := by
  cases f with
  | parse e => trivial
  | resource e =>
    have h : e.isOpening = true := h
    rw [loadFailure, if_pos h]
    trivial
  | _ => cases h

theorem Fails.openText {opener : Opener} (h : opener.InMemory) (name : String) :
    Fails IsLoading (openText opener name) := by
  cases opener with
  | noNames => exact .fail rfl
  | texts =>
    refine .bind (.modify fun s hs => hs.congr rfl rfl) fun _ => .get_bind fun s _ => ?_
    split
    · exact .pure _
    · exact .fail rfl
  | files root encoding => exact h.elim

theorem Fails.parseText (r : LoaderRef) (resource : Option String) (text : String) :
    Fails IsLoading (parseText r resource text) := by
  unfold Run.parseText
  split
  · exact .bind (.modifyGet fun s hs => hs.congr rfl rfl) fun id => .pure _
  · exact .fail trivial
  · exact .exhausted

theorem Fails.parseResource (r : LoaderRef) (name : String) : Fails IsLoading (parseResource r name) :=
  .get_bind fun _ hs => .bind (.openText (hs.loaders r.index) name) fun _ => .parseText _ _ _

/-- A template that was read is kept with the opener of the loader. -/
theorem Fails.load (r : LoaderRef) (name : String) : Fails IsLoading (load r name) := by
  refine .get_bind fun s _ => ?_
  split
  · exact .pure _
  · refine .bind (.parseResource r name) fun t => .get_bind fun s hs => ?_
    refine .bind (.modify fun s' hs' => ⟨hs'.streams, ?_⟩) fun _ => .pure _
    exact Heap.forall_get_set (P := fun l : Loader => l.opener.InMemory) hs'.loaders (hs.loaders r.index)

end Run

variable {F : Failure → Prop} {scope : Scope}

theorem Act.Fails.run {α : Type} {a : Act α} (h : a.Fails .calm F) (fuel : Nat) (scope : Scope) :
    Run.Fails F (a.run fuel scope) := by
  have hloader : Run.Fails Run.IsLoading (Run.loaderOf scope) := .get_bind fun _ _ => .pure _
  have hloaded : ∀ {place f}, Run.IsLoading f → (∀ e, F (.evaluation e)) → F (Run.loadFailure place f) := by
    intro place f hf hF
    have hevaluation := hf.isEvaluation place
    generalize Run.loadFailure place f = g at hevaluation
    cases g with
    | evaluation e => exact hF e
    | _ => cases hevaluation
  cases a with
  | step x => exact .toRun (h.mono fun _ hf => hf.1)
  | fuel => exact .pure _
  | host => exact .get_bind fun _ _ => .pure _
  | source e => exact .pure _
  | find name => exact .get_bind fun _ _ => .pure _
  | defined x => exact .get_bind fun _ _ => .pure _
  | define body origin =>
    exact .bind (.toRun Run.fails_freshId) fun _ =>
      .bind (.modify fun s hs => hs.congr rfl rfl) fun _ => .pure _
  | write text => exact .modify fun s hs => hs.congr rfl rfl
  | load place name =>
    exact .mapFailure (.bind hloader fun r => .load r name) fun f hf => hloaded hf h
  | parse place text =>
    exact .mapFailure (.bind hloader fun r => .parseText _ _ _) fun f hf => hloaded hf h

/-- Whether evaluating and rendering one level deeper stops with evaluation errors only, and the text of a
value with ordinary errors only. -/
structure Deeper.Fails (d : Deeper) : Prop where
  eval : ∀ scope e, Run.Fails IsEvaluation (d.eval scope e)
  render : ∀ scope nodes, Run.Fails IsEvaluation (d.render scope nodes)
  text : ∀ v, Run.Fails IsOrdinary (d.text v)

namespace Run

variable {d : Deeper}

theorem Fails.assign (scope : Scope) (x : String) (v : Value) : Fails F (Run.assign scope x v) :=
  .modifyGet fun _ hs => hs.assign scope x v

theorem Fails.read (hd : d.Fails) (scope : Scope) (x : String) : Fails IsEvaluation (Run.read d scope x) := by
  rw [Run.read]
  generalize scope.calls = calls
  induction calls with
  | nil => exact .get_bind fun _ _ => .pure _
  | cons c cs ih =>
    refine .get_bind fun s _ => ?_
    dsimp only
    split
    · exact .pure _
    · exact hd.eval _ _
    · exact ih

theorem Fails.iterate {x : String} {r : LoopRef} {body : Run Unit} (hbody : Fails F body) (n : Nat) :
    Fails F (iterate scope x r body n) := by
  induction n with
  | zero => exact .exhausted
  | succ n ih =>
    refine .bind (.toRun (fails_loopNext Cells.Calm.fails_streamNext r)) fun v => ?_
    split
    · exact .pure _
    · exact .bind (.assign _ _ _) fun _ => .bind hbody fun _ => ih

theorem Fails.forEach {body : Run Unit} (hbody : Fails F body) (fuel : Nat) (scope : Scope) (x : String)
    (source : Source) : Fails F (forEach fuel scope x source body) :=
  .bind (.assign _ _ _) fun undoVar => .bind (.toRun (fails_newLoop source)) fun _ =>
    .bind (.assign _ _ _) fun undoLoop =>
      .andThen (.catchLeave _ (.iterate hbody fuel)) fun _ hs => (hs.undo undoLoop).undo undoVar

/-- A macro adds to the trace of an evaluation error. -/
theorem Fails.renderMacro (hd : d.Fails) (scope : Scope) (m : MacroDef) (args : List Expr)
    (body : Option (List Node)) : Fails IsEvaluation (renderMacro d scope m args body) := by
  have htraced : ∀ f : Failure, f.IsEvaluation → (traced m f).IsEvaluation := by
    intro f hf
    cases f <;> trivial
  refine .bind ?_ fun block => .bind (.modifyGet fun s hs => ?_) fun c =>
    .andThen (.mapFailure (hd.render _ _) htraced) fun _ hs => hs.restoreParams c
  · cases body with
    | none => exact .pure _
    | some nodes => exact .map _ (.bind (.toRun fails_freshId) fun _ => .pure _)
  · cases block <;> exact hs.congr rfl rfl

theorem Fails.renderTemplate (hd : d.Fails) (scope : Scope) (t : Template) :
    Fails IsEvaluation (renderTemplate d scope t) :=
  .bind (.modify fun _ hs => hs.congr rfl rfl) fun _ => .catchLeave _ (hd.render _ _)

end Run

/-- A run of a script stops with the failures of the script. -/
theorem Script.Fails.run {d : Deeper} (hd : d.Fails) {α : Type} {y : Script scope α} (h : Script.Fails .calm F y) :
    Run.Fails F (y.run d) := by
  have hmono : ∀ {F : Failure → Prop} {α : Type} {x : Run α}, Run.Fails IsEvaluation x →
      (∀ e, F (.evaluation e)) → Run.Fails F x := by
    intro F α x hx hF
    refine hx.mono fun f hf => ?_
    cases f with
    | evaluation e => exact hF e
    | _ => cases hf
  induction h with
  | done => exact .pure _
  | andThen _ _ ihx ihf => exact .bind ihx ihf
  | act h => exact h.run _ _
  | leave => exact .leave _ _
  | read h => exact hmono (.read hd _ _) h
  | assign => exact .bind (.assign _ _ _) fun _ => .pure _
  | capture _ ih => exact .capture ih
  | rethrow _ h _ _ ih => exact .mapFailure ih h
  | loop _ ih => exact .forEach ih _ _ _ _
  | call h => exact hmono (.renderMacro hd _ _ _ _) h
  | template h => exact hmono (.renderTemplate hd _ _) h
  | block h => exact hmono (.get_bind fun _ _ => .capture (hd.render _ _)) h
  | text h => exact (hd.text _).mono h

end Stencil
