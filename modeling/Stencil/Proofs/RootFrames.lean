import Stencil.Proofs.Frames
import Stencil.Proofs.Script

/-!
# What evaluations have but for their variables

An evaluation has variables, and besides them the macros known to it, its host and its loader. Assigning and
taking back, and beginning and ending loops and calls, leave all of that alone: `Store.SameRoots`.
-/

namespace Stencil

/-- The frame of an evaluation without its variables. -/
def RootFrame.fixed (f : RootFrame) : RootFrame :=
  { f with vars := [] }

namespace Store

/-- Whether two stores have the same evaluations but for their variables. -/
structure SameRoots (s s' : Store) : Prop where
  size : s'.roots.size = s.roots.size
  fixed : ∀ r, (s'.root r).fixed = (s.root r).fixed

namespace SameRoots

variable {s s' s'' : Store}

theorem of_eq (h : s'.roots = s.roots) : s.SameRoots s' :=
  ⟨by rw [h], fun r => by rw [root_of_eq h]⟩

theorem refl (s : Store) : s.SameRoots s :=
  .of_eq rfl

theorem trans (h : s.SameRoots s') (h' : s'.SameRoots s'') : s.SameRoots s'' :=
  ⟨h'.size.trans h.size, fun r => (h'.fixed r).trans (h.fixed r)⟩

end SameRoots

variable (s : Store)

theorem sameRoots_setVars (r : RootRef) (vars : Bindings Value) :
    s.SameRoots (s.setRoot r { s.root r with vars := vars }) := by
  refine ⟨by simp [setRoot], fun q => ?_⟩
  rcases Nat.lt_or_ge r.index s.roots.size with hr | hr
  · rw [root_setRoot hr]
    split
    · rename_i hq
      rw [hq]
      rfl
    · rfl
  · rw [setRoot, Heap.set_of_ge _ hr]

theorem sameRoots_assignIn (root : RootRef) (x : String) (v : Value) (calls : List CallRef) :
    s.SameRoots (assignIn root x v calls s).2 := by
  induction calls generalizing s with
  | nil => exact s.sameRoots_setVars root _
  | cons c cs ih =>
    cases hc : s.arg x c with
    | none =>
      rw [assignIn_cons_of_none hc]
      exact ih s
    | some t =>
      rw [assignIn_cons_of_some hc]
      have hinner := ih (s.hide c x)
      exact ⟨hinner.size, hinner.fixed⟩

theorem sameRoots_assign (scope : Scope) (x : String) (v : Value) :
    s.SameRoots (s.assign scope x v).2 :=
  s.sameRoots_assignIn scope.root x v scope.calls

theorem sameRoots_undo (u : Undo) : s.SameRoots (undo u s) := by
  induction u generalizing s with
  | rebind r x former => cases former <;> exact s.sameRoots_setVars r _
  | unhide k inner ih =>
    rw [undo_unhide]
    split
    · exact .refl s
    · have hinner := ih (s.finish k)
      exact ⟨hinner.size, hinner.fixed⟩

theorem sameRoots_undoAll (us : List Undo) : s.SameRoots (us.foldl (fun s u => undo u s) s) := by
  induction us generalizing s with
  | nil => exact .refl s
  | cons u us ih => exact (s.sameRoots_undo u).trans (ih (undo u s))

theorem sameRoots_restoreParams (c : CallRef) : s.SameRoots (s.restoreParams c) := by
  have hrest := sameRoots_undoAll (s.setCall c { s.call c with hidden := [] }) (s.call c).hidden
  exact ⟨hrest.size, hrest.fixed⟩

theorem sameRoots_beginCall (scope : Scope) (m : MacroDef) (args : List Expr) (body : Option (List Node)) :
    s.SameRoots (s.beginCall scope m args body).2 := by
  cases body <;> exact .of_eq rfl

/-- Known macros change when some are made known, and nothing else of an evaluation does. -/
theorem fixed_addMacros {r : RootRef} (q : RootRef) (ms : List MacroDef) (hq : q.index < s.roots.size) :
    ((s.addMacros r ms).root q).fixed =
      { (s.root q).fixed with macros := (if r = q then ms else []).foldl addMacro (s.macros q) } := by
  by_cases hr : r = q
  · subst hr
    rw [addMacros, root_setRoot hq, if_pos rfl, if_pos rfl]
    rfl
  · have hroot : (s.addMacros r ms).root q = s.root q := by
      rcases Nat.lt_or_ge r.index s.roots.size with hlt | hge
      · rw [addMacros, root_setRoot hlt, if_neg fun h => hr h.symm]
      · rw [addMacros, setRoot, Heap.set_of_ge _ hge]
    rw [hroot, if_neg hr]
    rfl

end Store

end Stencil
