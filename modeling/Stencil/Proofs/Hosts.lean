import Stencil.Proofs.After
import Stencil.Proofs.RootFrames

/-!
# Evaluations keep their hosts

Whatever a script does and however it ends, each evaluation that is under way keeps its host, and none is
begun or ended: `Script.hosts_after`.
-/

namespace Stencil

namespace Store

/-- The hosts of the evaluations. -/
def hosts (s : Store) : Array HostKind :=
  s.roots.cells.map (·.host)

variable {s s' : Store}

theorem hosts_of_roots (h : s'.roots = s.roots) : s'.hosts = s.hosts := by
  rw [hosts, hosts, h]

theorem size_roots_of_hosts (h : s'.hosts = s.hosts) : s'.roots.size = s.roots.size := by
  have hsize := congrArg Array.size h
  rwa [hosts, hosts, Array.size_map, Array.size_map] at hsize

/-- The host of an evaluation. -/
theorem host_of_hosts (h : s'.hosts = s.hosts) (r : RootRef) : (s'.root r).host = (s.root r).host := by
  have hroot : ∀ u : Store, (u.root r).host = (u.hosts[r.index]?).getD (default : RootFrame).host := by
    intro u
    rw [root, Heap.get, hosts, Array.getElem?_map, Array.getD_eq_getD_getElem?]
    cases u.roots.cells[r.index]? <;> rfl
  rw [hroot, hroot, h]

/-- A frame changes no host if it has the host of the frame that it replaces. -/
theorem hosts_setRoot {r : RootRef} {f : RootFrame} (h : f.host = (s.root r).host) :
    (s.setRoot r f).hosts = s.hosts := by
  refine Array.ext (by simp [hosts, setRoot, Heap.set]) fun i _ hi => ?_
  have hlt : i < s.roots.cells.size := by simpa [hosts] using hi
  simp only [hosts, setRoot, Heap.set, Array.getElem_map]
  rw [Array.getElem_setIfInBounds hlt]
  split
  · rename_i hr
    subst hr
    rw [h, root, Heap.get, Array.getD_eq_getD_getElem?, Array.getElem?_eq_getElem hlt]
    rfl
  · rfl

theorem SameRoots.hosts (h : s.SameRoots s') : s'.hosts = s.hosts := by
  have hsize : s'.roots.cells.size = s.roots.cells.size := h.size
  refine Array.ext (by simp [Store.hosts, hsize]) fun i hi hi' => ?_
  rw [Store.hosts, Array.size_map] at hi hi'
  have hhost : (s'.root ⟨i⟩).fixed.host = (s.root ⟨i⟩).fixed.host := by rw [h.fixed]
  simpa [Store.hosts, root, RootFrame.fixed, Heap.get, hi, hi'] using hhost

theorem hosts_assign (s : Store) (scope : Scope) (x : String) (v : Value) :
    (s.assign scope x v).2.hosts = s.hosts :=
  (s.sameRoots_assign scope x v).hosts

theorem hosts_undo (u : Undo) (s : Store) : (undo u s).hosts = s.hosts :=
  (s.sameRoots_undo u).hosts

theorem hosts_restoreParams (s : Store) (c : CallRef) : (s.restoreParams c).hosts = s.hosts :=
  (s.sameRoots_restoreParams c).hosts

theorem hosts_beginCall (scope : Scope) (m : MacroDef) (args : List Expr) (body : Option (List Node)) :
    (s.beginCall scope m args body).2.hosts = s.hosts := by
  cases body <;> rfl

theorem hosts_beginLoop (scope : Scope) (x : String) (source : Source) :
    (s.beginLoop scope x source).2.2.2.hosts = s.hosts :=
  (hosts_assign _ scope loopVar _).trans ((hosts_of_roots rfl).trans (hosts_assign s scope x .null))

end Store

namespace Run

variable {α β : Type} {s : Store} {scope : Scope}

theorem hosts_bind {x : Run β} {f : β → Run α} (hx : (x.after s).hosts = s.hosts)
    (hf : ∀ b s', ((f b).after s').hosts = s'.hosts) : ((x >>= f).after s).hosts = s.hosts := by
  rw [after] at hx
  rw [after_bind]
  cases he : x s with
  | ok b s₁ =>
    rw [he] at hx
    exact (hf b s₁).trans hx
  | error h s₁ =>
    rw [he] at hx
    exact hx

theorem hosts_capture {x : Run Unit} (hx : ∀ s : Store, (x.after s).hosts = s.hosts) :
    ((capture x).after s).hosts = s.hosts := by
  rw [after_capture]
  exact hx _

theorem hosts_iterate {x : String} {r : LoopRef} {body : Run Unit}
    (hbody : ∀ s : Store, (body.after s).hosts = s.hosts) (n : Nat) :
    ((iterate scope x r body n).after s).hosts = s.hosts := by
  induction n generalizing s with
  | zero => rfl
  | succ n ih =>
    have hnext : Store.SameFrames scope s ((loopNext r).toRun.after s) := Apart.toRun (loopNext r) s
    refine hosts_bind (Store.hosts_of_roots hnext.roots) fun v s' => ?_
    cases v with
    | none => rfl
    | some v =>
      exact hosts_bind (Store.hosts_assign s' scope x v) fun _ s' => hosts_bind (hbody s') fun _ _ => ih

end Run

namespace Script

variable {scope : Scope} {α : Type}

/-- Evaluations keep their hosts when they do one level deeper. -/
theorem hosts_step {n : Nat}
    (ih : ∀ k, n = k + 1 → ∀ {scope : Scope} {β : Type} (y : Script scope β) (s : Store),
      ((y.run (Deeper.within k)).after s).hosts = s.hosts)
    (y : Script scope α) (s : Store) : ((y.run (Deeper.within n)).after s).hosts = s.hosts := by
  have hrender : ∀ (scope : Scope) (nodes : List Node) (s : Store),
      (((Deeper.within n).render scope nodes).after s).hosts = s.hosts := by
    intro scope nodes s
    cases n with
    | zero => rfl
    | succ k => exact ih k rfl (renderNodes scope nodes) s
  induction y generalizing s with
  | done a => rfl
  | andThen x f ihx ihf => exact Run.hosts_bind (ihx s) fun b => ihf b
  | act a => exact Store.hosts_of_roots (a.apart _ scope s).roots
  | leave place loopOnly => rfl
  | read x =>
    show ((Run.read (Deeper.within n) scope x).after s).hosts = _
    rw [Run.after, Run.read_eq, ← Run.after]
    cases s.lookup scope x with
    | block b => rfl
    | stored v => rfl
    | argument c t =>
      cases n with
      | zero => rfl
      | succ k => exact ih k rfl (evalExpr t.scope t.expr false) s
  | assign x v => exact Store.hosts_assign s scope x v
  | capture x ihx => exact Run.hosts_capture ihx
  | rethrow f x ihx =>
    rw [run, Run.after_mapFailure]
    exact ihx s
  | loop x source body ihb =>
    rw [run, Run.after_forEach, Store.hosts_undo, Store.hosts_undo]
    exact (Run.hosts_iterate ihb n).trans (Store.hosts_beginLoop scope x source)
  | call m args body =>
    rw [run, Run.after_renderMacro, Store.hosts_restoreParams, hrender]
    exact Store.hosts_beginCall scope m args body
  | template t =>
    rw [run, Run.after_renderTemplate, hrender]
    exact Store.hosts_setRoot rfl
  | block b => exact Run.hosts_capture fun s => hrender _ _ s
  | text v =>
    cases n with
    | zero => rfl
    | succ k => exact ih k rfl (textOf v) s

/-- Whatever a script does and however it ends, the evaluations keep their hosts. -/
theorem hosts_after (n : Nat) (y : Script scope α) (s : Store) :
    ((y.run (Deeper.within n)).after s).hosts = s.hosts := by
  induction n generalizing s scope α with
  | zero => exact y.hosts_step (fun k h => absurd h (Nat.zero_ne_add_one k)) s
  | succ n ih =>
    refine y.hosts_step (fun k h => ?_) s
    cases h
    exact fun y s => ih y s

end Script

end Stencil
