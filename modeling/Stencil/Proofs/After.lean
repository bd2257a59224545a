import Stencil.Proofs.Frames
import Stencil.Proofs.Script

/-!
# The store after a step

The store that a step leaves, however the step ends. What brackets a step does with the way it ended
disappears here, and what it does to the store stays.
-/

namespace Stencil

namespace Run

variable {α β : Type} {s s' : Store}

/-- The store after a step, also when the step stops early. -/
def after (x : Run α) (s : Store) : Store :=
  match x s with
  | .ok _ s' => s'
  | .error _ s' => s'

/-- After two steps is after the second, or after the first if that one stops early. -/
theorem after_bind (x : Run β) (f : β → Run α) (s : Store) :
    (x >>= f).after s = match x s with
      | .ok b s₁ => (f b).after s₁
      | .error _ s₁ => s₁ := by
  show (match EStateM.bind x f s with | .ok _ s' => s' | .error _ s' => s') = _
  cases h : x s <;> simp [EStateM.bind, h, after]

theorem after_andThen (x : Run α) (g : Store → Store) (s : Store) :
    (andThen x g).after s = g (x.after s) := by
  rw [after, andThen, after]
  cases x s <;> rfl

theorem after_mapFailure (f : Failure → Failure) (x : Run α) (s : Store) :
    (mapFailure f x).after s = x.after s := by
  rw [after, mapFailure, after]
  rcases x s with ⟨a, s'⟩ | ⟨h, s'⟩
  · rfl
  · cases h <;> rfl

theorem after_catchLeave (stops : Bool → Bool) (x : Run Unit) (s : Store) :
    (catchLeave stops x).after s = x.after s := by
  rw [after, catchLeave, after]
  rcases x s with ⟨a, s'⟩ | ⟨h, s'⟩
  · rfl
  · cases h with
    | leave p b => by_cases hb : stops b <;> simp [hb]
    | failure f => rfl
    | exhausted => rfl

theorem after_capture (x : Run Unit) (s : Store) :
    (capture x).after s = { x.after { s with written := "" } with written := s.written } := by
  rw [after, capture, after]
  cases x { s with written := "" } <;> rfl

theorem after_renderMacro (d : Deeper) (scope : Scope) (m : MacroDef) (args : List Expr)
    (body : Option (List Node)) (s : Store) :
    (renderMacro d scope m args body).after s =
      ((d.render (scope.enter (s.beginCall scope m args body).1) m.body).after
        (s.beginCall scope m args body).2).restoreParams (s.beginCall scope m args body).1 := by
  rw [after, renderMacro_eq]
  show (andThen _ _).after _ = _
  rw [after_andThen, after_mapFailure]

theorem after_renderTemplate (d : Deeper) (scope : Scope) (t : Template) (s : Store) :
    (renderTemplate d scope t).after s =
      (d.render scope t.document.nodes).after (s.addMacros scope.root t.macros) := by
  show (catchLeave _ _).after (s.addMacros scope.root t.macros) = _
  rw [after_catchLeave]

theorem after_forEach (fuel : Nat) (scope : Scope) (x : String) (source : Source) (body : Run Unit)
    (s : Store) :
    (forEach fuel scope x source body).after s =
      (((iterate scope x (s.beginLoop scope x source).1 body fuel).after
        (s.beginLoop scope x source).2.2.2).undo (s.beginLoop scope x source).2.2.1).undo
          (s.beginLoop scope x source).2.1 := by
  rw [after, forEach_eq]
  show (andThen _ _).after _ = _
  rw [after_andThen, after_catchLeave]

end Run

/-! ### The passes of a loop -/

/-- The stores in which the body of a loop begins. -/
inductive Run.Pass (scope : Scope) (x : String) (r : LoopRef) (body : Run Unit) : Store → Store → Prop
  | first {s s₁ : Store} {v : Value} (hnext : (loopNext r).toRun s = .ok (some v) s₁) :
      Pass scope x r body s (s₁.assign scope x v).2
  | next {s s₁ s₂ s' : Store} {v : Value} (hnext : (loopNext r).toRun s = .ok (some v) s₁)
      (hbody : body (s₁.assign scope x v).2 = .ok () s₂) (hrest : Pass scope x r body s₂ s') :
      Pass scope x r body s s'

/-! ### Steps that leave variables alone -/

/-- Whether two stores have the same variables and parameters, and the second no new blocks but some of
a scope. -/
structure Store.SameFrames (scope : Scope) (s s' : Store) : Prop where
  roots : s'.roots = s.roots
  calls : s'.calls = s.calls
  shadows : s'.shadows = s.shadows
  blocks : ∀ (k : Nat) (b : Block), s'.blocks[k]? = some b → s.blocks[k]? = some b ∨ b.scope = scope

/-- Whether a step never changes a variable or a parameter, and makes no blocks but some of a scope. -/
def Run.Apart {α : Type} (scope : Scope) (x : Run α) : Prop :=
  ∀ s : Store, Store.SameFrames scope s (x.after s)

namespace Store

theorem SameFrames.of_eq {scope : Scope} {s s' : Store} (hr : s'.roots = s.roots)
    (hc : s'.calls = s.calls) (hh : s'.shadows = s.shadows) (hb : s'.blocks = s.blocks) :
    SameFrames scope s s' :=
  ⟨hr, hc, hh, fun _ _ h => .inl (hb ▸ h)⟩

theorem SameFrames.refl (scope : Scope) (s : Store) : SameFrames scope s s :=
  .of_eq rfl rfl rfl rfl

theorem SameFrames.trans {scope : Scope} {s s' s'' : Store} (h : SameFrames scope s s')
    (h' : SameFrames scope s' s'') : SameFrames scope s s'' := by
  refine ⟨h'.roots.trans h.roots, h'.calls.trans h.calls, h'.shadows.trans h.shadows, ?_⟩
  intro k b hk
  rcases h'.blocks k b hk with hk | hk
  · exact h.blocks k b hk
  · exact .inr hk

end Store

namespace Run

open Store (SameFrames)

variable {α β : Type} {scope : Scope}

theorem Apart.pure (a : α) : Apart scope (Pure.pure a) := fun s => .refl scope s

theorem Apart.get : Apart scope (get : Run Store) := fun s => .refl scope s

theorem Apart.fail (f : Failure) : Apart scope (fail f : Run α) := fun s => .refl scope s

theorem Apart.exhausted : Apart scope (exhausted : Run α) := fun s => .refl scope s

theorem Apart.modify {f : Store → Store} (h : ∀ s, SameFrames scope s (f s)) :
    Apart scope (modify f : Run PUnit) := h

theorem Apart.bind {x : Run β} {f : β → Run α} (hx : Apart scope x) (hf : ∀ b, Apart scope (f b)) :
    Apart scope (x >>= f) := by
  intro s
  have h := hx s
  rw [after] at h
  rw [after_bind]
  cases he : x s with
  | ok b s₁ =>
    rw [he] at h
    exact h.trans (hf b s₁)
  | error e s₁ =>
    rw [he] at h
    exact h

theorem Apart.toRun (x : Step α) : Apart scope x.toRun := by
  intro s
  rw [after, Step.toRun]
  cases x s.toCells <;> exact .of_eq rfl rfl rfl rfl

theorem Apart.mapFailure {x : Run α} (f : Failure → Failure) (hx : Apart scope x) :
    Apart scope (mapFailure f x) := by
  intro s
  rw [after_mapFailure]
  exact hx s

theorem Apart.openText (opener : Opener) (name : String) : Apart scope (openText opener name) := by
  cases opener with
  | noNames => exact .fail _
  | texts =>
    refine .bind (.modify fun s => .of_eq rfl rfl rfl rfl) fun _ => .bind .get fun s => ?_
    split
    · exact .pure _
    · exact .fail _
  | files root encoding =>
    refine .bind .get fun s => ?_
    cases readFile s.files root encoding name with
    | ok text => exact .pure text
    | error e => exact .fail _

theorem Apart.parseText (r : LoaderRef) (resource : Option String) (text : String) :
    Apart scope (parseText r resource text) := by
  rw [Run.parseText]
  split
  · exact .bind (x := templateId) (fun s => .of_eq rfl rfl rfl rfl) fun id => .pure _
  · exact .fail _
  · exact .exhausted

theorem Apart.loader (r : LoaderRef) : Apart scope (loader r) :=
  .bind .get fun _ => .pure _

theorem Apart.parseResource (r : LoaderRef) (name : String) : Apart scope (parseResource r name) :=
  .bind (.loader r) fun _ => .bind (.openText _ _) fun _ => .parseText _ _ _

theorem Apart.load (r : LoaderRef) (name : String) : Apart scope (load r name) := by
  refine .bind (.loader r) fun l => ?_
  split
  · exact .pure _
  · exact .bind (.parseResource r name) fun t => .bind (.loader r) fun l =>
      .bind (.modify fun s => .of_eq rfl rfl rfl rfl) fun _ => .pure _

theorem Apart.newBlock (body : List Node) (origin : String) :
    Apart scope (newBlock scope body origin) := by
  refine .bind (.toRun _) fun id => .bind (.modify fun s => ⟨rfl, rfl, rfl, ?_⟩) fun _ => .pure _
  intro k b hk
  simp only [Store.addBlock, Std.TreeMap.getElem?_insert] at hk
  split at hk
  · cases hk
    exact .inr rfl
  · exact .inl hk

end Run

open Run (Apart)

/-- An act changes no variable and no parameter, and makes blocks of its own scope only. -/
theorem Act.apart (fuel : Nat) (scope : Scope) {α : Type} (a : Act α) :
    Apart scope (a.run fuel scope) := by
  have hloader : Apart scope (Run.loaderOf scope) := .bind .get fun _ => .pure _
  cases a with
  | step x => exact .toRun x
  | fuel => exact .pure _
  | host => exact .bind .get fun _ => .pure _
  | source e => exact .pure _
  | find name => exact .bind .get fun _ => .pure _
  | defined x => exact .bind .get fun _ => .pure _
  | define body origin => exact .newBlock body origin
  | write text => exact .modify fun s => .of_eq rfl rfl rfl rfl
  | load place name => exact .mapFailure _ (.bind hloader fun r => .load r name)
  | parse place text => exact .mapFailure _ (.bind hloader fun r => .parseText _ _ _)

end Stencil
