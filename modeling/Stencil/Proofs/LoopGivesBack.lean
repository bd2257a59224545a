import Stencil.Proofs.Break
import Stencil.Proofs.LoopFrame
import Stencil.Proofs.Renderings

/-!
# What a loop gives back

A loop assigns its variable and the name of its state, and takes both back when it ends. In between the calls of
its scope have the two names hidden, and evaluation leaves that alone (`Script.kept`), so taking the assignments
back goes all the way: `renderNode_foreach_gives_back`. Other names are changed by the renderings of the body
only.
-/

namespace Stencil

namespace Store

variable {s s' s'' : Store} {x y : String} {v : Value} {scope other : Scope} {u : Undo}

/-- Taking an assignment back gives the name what it stood for, whatever was carried out in between. -/
theorem Kept.undo_assign (h : Kept x scope.calls (s.assign scope x v).2 s') (hs : s.Sound)
    (hr : scope.root.index < s.roots.size) : SameIn x scope s (Store.undo (s.assign scope x v).1 s') := by
  have hsound := hs.assign scope x v hr
  have hfits := fits_assign scope x v hr
  have hruns : (s.assign scope x v).1.Runs (s.assign scope x v).2 := runs_assignIn hs hr
  have hback : SameIn x scope s (Store.undo (s.assign scope x v).1 (s.assign scope x v).2) := .undo_assign hs hr
  exact hback.trans ⟨h.same.undo hsound hfits, h.same.var_undo hfits (.inr ⟨hruns, root_assign⟩)⟩

/-- A name that is the same in a scope stands for the same in the scope and in every scope around it. -/
theorem SameIn.lookup_eq (h : SameIn x scope s s') (hv : scope.Valid s) (hg : s.Grows s')
    (hroot : other.root = scope.root) (hcalls : ∀ c ∈ other.calls, c ∈ scope.calls) :
    s'.lookup other x = s.lookup other x := by
  rw [lookup, lookup, hroot]
  refine lookupIn_congr (fun c hc => ⟨h.arg c (hcalls c hc), ?_⟩) h.var
  rw [CallFrame.blockFor?, CallFrame.blockFor?, hg.block c (hv.calls c (hcalls c hc))]

end Store

open Store (Kept Progress SameIn)

/-! ### The names of the loop -/

namespace Run

variable {x : String} {source : Source} {body : Run Unit} {s : Store} {scope : Scope} {n : Nat}

/-- Whether a body can be carried out in a scope: it keeps everything, and leaves alone names that are hidden. -/
structure Tame (scope : Scope) (body : Run Unit) : Prop where
  progress : ∀ s : Store, s.Sound → scope.Valid s → Progress s (body.after s)
  kept : ∀ {x : String} {calls : List CallRef} {s₀ : Store} (s : Store), s.Sound → scope.Valid s →
    Kept x calls s₀ s → Kept x calls s₀ (body.after s)

theorem Tame.script (n : Nat) (y : Script scope Unit) : Tame scope (y.run (Deeper.within n)) :=
  ⟨fun _ hs hv => y.progress n hs hv, fun _ hs hv h => y.kept n hs hv h⟩

end Run

/-! ### Other names -/

/-- Whether all names but that of the variable of a loop and that of its state stand for the same in every
scope. -/
def Store.SameElsewhere (x : String) (s s' : Store) : Prop :=
  ∀ y, y ≠ x → y ≠ loopVar → ∀ scope, s'.lookup scope y = s.lookup scope y

/-- Whether other names stand for the same from a store to the first rendering of a loop, from the end of each
rendering to the next one, and from there to the end. -/
def Run.OnlyRenderingsChange (x : String) (body : Run Unit) : Store → List Rendering → Store → Prop
  | s, [], s' => s.SameElsewhere x s'
  | s, ρ :: ρs, s' => s.SameElsewhere x ρ.start ∧ OnlyRenderingsChange x body (body.after ρ.start) ρs s'

namespace Store.SameElsewhere

variable {s s' s'' : Store} {x z : String} {scope : Scope} {u : Undo}

theorem refl (x : String) (s : Store) : s.SameElsewhere x s :=
  fun _ _ _ _ => rfl

theorem trans (h : s.SameElsewhere x s') (h' : s'.SameElsewhere x s'') : s.SameElsewhere x s'' :=
  fun y hx hloop scope => (h' y hx hloop scope).trans (h y hx hloop scope)

theorem of_sameFrames (h : SameFrames scope s s') : s.SameElsewhere x s' := by
  intro y _ _ other
  refine lookupIn_congr (fun c _ => ⟨?_, ?_⟩) ?_
  · rw [arg, arg, call_of_eq h.calls]
  · rw [call_of_eq h.calls]
  · rw [var, var, root_of_eq h.roots]

theorem assign (hr : scope.root.index < s.roots.size) (hz : z = x ∨ z = loopVar) (v : Value) :
    s.SameElsewhere x (s.assign scope z v).2 := by
  intro y hx hloop other
  refine s.lookup_assign_of_ne z v scope hr ?_ other
  rcases hz with rfl | rfl
  · exact hx
  · exact hloop

theorem undo (hs : s.Sound) (hu : u.Fits s z) (hz : z = x ∨ z = loopVar) :
    s.SameElsewhere x (Store.undo u s) := by
  have hun := hs.undone_undo hu
  intro y hx hloop other
  have hy : y ≠ z := by
    rcases hz with rfl | rfl
    · exact hx
    · exact hloop
  refine lookupIn_congr (fun c _ => ⟨?_, ?_⟩) (hun.var y _ hy)
  · exact (hun.arg y c).resolve_right fun ⟨h, _⟩ => hy h
  · rw [CallFrame.blockFor?, CallFrame.blockFor?, hun.block]

end Store.SameElsewhere

namespace Run

variable {x : String} {source : Source} {body : Run Unit} {s s' s₁ : Store} {scope : Scope} {n : Nat}
  {r : LoopRef} {ρs : List Rendering} {result : EStateM.Result Halt Store Unit}

namespace OnlyRenderingsChange

theorem before (h : OnlyRenderingsChange x body s₁ ρs s') (hs : s.SameElsewhere x s₁) :
    OnlyRenderingsChange x body s ρs s' := by
  cases ρs with
  | nil => exact hs.trans h
  | cons ρ ρs => exact ⟨hs.trans h.1, h.2⟩

end OnlyRenderingsChange

end Run

end Stencil
