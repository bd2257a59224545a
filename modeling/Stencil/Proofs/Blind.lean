import Stencil.Proofs.Alike
import Stencil.Proofs.Aside

/-!
# Steps that cannot see a difference

From stores that are alike but for a name, a step that never comes upon that name ends alike: with the
same result or the same error, and in stores that are alike still.
-/

namespace Stencil

open Store (Alike)

/-- Whether two steps end with the same result or the same error, in stores that are alike. -/
inductive SameOutcome (δ : Difference) {α : Type} :
    EStateM.Result Halt Store α → EStateM.Result Halt Store α → Prop
  | ok {a : α} {s t : Store} (h : Alike δ s t) : SameOutcome δ (.ok a s) (.ok a t)
  | error {e : Halt} {s t : Store} (h : Alike δ s t) : SameOutcome δ (.error e s) (.error e t)

variable {δ : Difference} {α β : Type} {s t : Store}

theorem sameOutcome_iff {r r' : EStateM.Result Halt Store α} :
    SameOutcome δ r r' ↔ EndsSame (Alike δ) r r' := by
  constructor
  · rintro (h | h)
    · exact .ok h
    · exact .error h
  · rintro (h | h)
    · exact .ok h
    · exact .error h

namespace SameOutcome

theorem bind {x : Run β} {f : β → Run α} (hx : SameOutcome δ (x s) (x t))
    (hf : ∀ b s' t', x s = .ok b s' → Alike δ s' t' → SameOutcome δ (f b s') (f b t')) :
    SameOutcome δ ((x >>= f) s) ((x >>= f) t) :=
  sameOutcome_iff.2 (.bind (sameOutcome_iff.1 hx) fun b s' t' hs h => sameOutcome_iff.1 (hf b s' t' hs h))

theorem andThen {x : Run α} {after after' : Store → Store} (hx : SameOutcome δ (x s) (x t))
    (hafter : ∀ s' t', x.after s = s' → Alike δ s' t' → Alike δ (after s') (after' t')) :
    SameOutcome δ (Run.andThen x after s) (Run.andThen x after' t) :=
  sameOutcome_iff.2 (.andThen (sameOutcome_iff.1 hx) hafter)

theorem mapFailure {x : Run α} (f : Failure → Failure) (hx : SameOutcome δ (x s) (x t)) :
    SameOutcome δ (Run.mapFailure f x s) (Run.mapFailure f x t) :=
  sameOutcome_iff.2 (.mapFailure f (sameOutcome_iff.1 hx))

theorem catchLeave {x : Run Unit} (stops : Bool → Bool) (hx : SameOutcome δ (x s) (x t)) :
    SameOutcome δ (Run.catchLeave stops x s) (Run.catchLeave stops x t) :=
  sameOutcome_iff.2 (.catchLeave stops (sameOutcome_iff.1 hx))

end SameOutcome

theorem Store.Alike.written (h : Alike δ s t) (text : String) :
    Alike δ { s with written := text } { t with written := text } :=
  h.of_bare ⟨rfl, rfl, rfl⟩ ⟨rfl, rfl, rfl⟩
    (congrArg (fun b : Store => { b with written := text }) h.bare)

theorem SameOutcome.capture {x : Run Unit} (h : Alike δ s t)
    (hx : SameOutcome δ (x { s with written := "" }) (x { t with written := "" })) :
    SameOutcome δ (Run.capture x s) (Run.capture x t) :=
  sameOutcome_iff.2 (.capture (fun h => congrArg (·.written) h.bare.symm) (fun h => h.written) h
    (sameOutcome_iff.1 hx))

/-- Whether a step cannot see a difference. -/
def Run.Blind (δ : Difference) (x : Run α) : Prop :=
  ∀ s t, Alike δ s t → SameOutcome δ (x s) (x t)

namespace Run

theorem Blind.pure (a : α) : Blind δ (Pure.pure a) := fun _ _ h => .ok h

theorem Blind.bind {x : Run β} {f : β → Run α} (hx : Blind δ x) (hf : ∀ b, Blind δ (f b)) :
    Blind δ (x >>= f) :=
  fun s t h => .bind (hx s t h) fun b s' t' _ h' => hf b s' t' h'

theorem Blind.reads {f : Store → α} (hf : ∀ s t, Alike δ s t → f t = f s) :
    Blind δ (do return f (← get) : Run α) := by
  intro s t h
  show SameOutcome δ (.ok (f s) s) (.ok (f t) t)
  rw [hf s t h]
  exact .ok h

theorem Blind.change {f : Store → Store} (hf : ∀ s t, Alike δ s t → Alike δ (f s) (f t)) :
    Blind δ (modify f : Run PUnit) := fun s t h => .ok (hf s t h)

theorem Blind.mapFailure {x : Run α} (f : Failure → Failure) (hx : Blind δ x) :
    Blind δ (mapFailure f x) := fun s t h => .mapFailure f (hx s t h)

/-- Changing what is not a variable, a call or a hidden parameter. -/
theorem Blind.change_bare {f : Store → Store} (hf : ∀ s, (f s).roots = s.roots ∧
      (f s).calls = s.calls ∧ (f s).shadows = s.shadows) (hb : ∀ s, (f s).bare = (f s.bare).bare) :
    Blind δ (modify f : Run PUnit) := by
  refine .change fun s t h => h.of_bare (hf s) (hf t) ?_
  rw [hb t, hb s, h.bare]

/-- A step beside variables and calls sees no difference in them. -/
theorem Aside.blind {x : Run α} (hx : Aside x) : Blind δ x := by
  intro s t h
  have hframes := congrArg (fun b : Store => b.withFrames t.roots t.calls t.shadows b.blocks) h.bare
  have ht : t = s.withFrames t.roots t.calls t.shadows s.blocks := hframes
  rw [ht] at h ⊢
  exact sameOutcome_iff.2 (hx.endsSame s fun s' => h.of_bare ⟨rfl, rfl, rfl⟩ ⟨rfl, rfl, rfl⟩ rfl)

theorem Blind.newBlock (scope : Scope) (body : List Node) (origin : String) :
    Blind δ (newBlock scope body origin) :=
  .bind (Aside.toRun _).blind fun _ =>
    .bind (.change_bare (fun _ => ⟨rfl, rfl, rfl⟩) fun _ => rfl) fun _ => .pure _

end Run

end Stencil
