import Mathlib.Data.List.Forall2
import Mathlib.Data.Option.Basic
import Stencil.Proofs.Frames
import Stencil.Proofs.Script

/-!
# Assigning in related stores

A relation of stores is a simulation when it looks only at the cells, the variables and the calls, and is
kept where these change in the same way on both sides. Assigning and taking back, loops and the ends of calls
are made of such changes, so that every simulation is kept by them.
-/

namespace Stencil

/-- Cells of one heap related to those of another. -/
structure Heap.Like {α : Type} [Inhabited α] (R : α → α → Prop) (h h' : Heap α) : Prop where
  size : h.size = h'.size
  get : ∀ i, R (h.get i) (h'.get i)

namespace Heap.Like

variable {α : Type} [Inhabited α] {R : α → α → Prop} {h h' : Heap α}

theorem set (hh : Heap.Like R h h') {a a' : α} (ha : R a a') (i : Nat) :
    Heap.Like R (h.set i a) (h'.set i a') := by
  refine ⟨by rw [size_set, size_set, hh.size], fun j => ?_⟩
  by_cases hi : i < h.size
  · rw [get_set hi, get_set (hh.size ▸ hi)]
    split
    · exact ha
    · exact hh.get j
  · have hge := Nat.le_of_not_lt hi
    rw [set_of_ge _ hge, set_of_ge _ (hh.size ▸ hge)]
    exact hh.get j

theorem alloc (hh : Heap.Like R h h') {a a' : α} (ha : R a a') :
    Heap.Like R (h.alloc a) (h'.alloc a') := by
  refine ⟨by rw [size_alloc, size_alloc, hh.size], fun j => ?_⟩
  rw [get_alloc, get_alloc, hh.size]
  split
  · exact ha
  · exact hh.get j

theorem refl (hR : ∀ a, R a a) (h : Heap α) : Heap.Like R h h :=
  ⟨rfl, fun i => hR (h.get i)⟩

end Heap.Like

/-- Lists of bindings of the same names, one after another, give related bindings. -/
theorem Bindings.rel_ofList {α β : Type} {R : String → α → β → Prop} {pairs : List (String × α)}
    {pairs' : List (String × β)} (h : List.Forall₂ (fun p p' => p.1 = p'.1 ∧ R p.1 p.2 p'.2) pairs pairs')
    (x : String) : Option.Rel (R x) ((ofList pairs).get? x) ((ofList pairs').get? x) := by
  have hput : ∀ (b : Bindings α) (b' : Bindings β), (∀ x, Option.Rel (R x) (b.get? x) (b'.get? x)) →
      ∀ x, Option.Rel (R x) ((pairs.foldl (fun b p => b.put p.1 p.2) b).get? x)
        ((pairs'.foldl (fun b p => b.put p.1 p.2) b').get? x) := by
    induction h with
    | nil => exact fun _ _ hb => hb
    | @cons p p' _ _ hp _ ih =>
      refine fun b b' hb => ih _ _ fun y => ?_
      rw [get?_put, get?_put, ← hp.1]
      split
      · rename_i hy
        exact .some (hy ▸ hp.2)
      · exact hb y
  exact hput [] [] (fun _ => .none) x

/-- How the arguments of the parameters of calls are related. -/
abbrev ThunkRelation := CallRef → String → Thunk → Thunk → Prop

/-- Frames of a call with related arguments. -/
structure CallFrame.Related (T : ThunkRelation) (c : CallRef) (f f' : CallFrame) : Prop where
  params : ∀ x, Option.Rel (T c x) (f.params.get? x) (f'.params.get? x)
  block : f.block = f'.block
  hidden : f.hidden = f'.hidden

/-- Hidden parameters of one name and call, with related arguments. -/
structure Shadow.Related (T : ThunkRelation) (p p' : Shadow) : Prop where
  call : p.call = p'.call
  param : p.param = p'.param
  thunk : T p.call p.param p.thunk p'.thunk
  done : p.done = p'.done

namespace Store

/-- Relations of stores that are kept where cells, variables, calls and hidden parameters change in the same
way. -/
structure Simulation (T : ThunkRelation) (R : Store → Store → Prop) : Prop where
  cells : ∀ {s t}, R s t → s.toCells = t.toCells
  vars : ∀ {s t}, R s t → ∀ r, (s.root r).vars = (t.root r).vars
  call : ∀ {s t}, R s t → ∀ c, (s.call c).Related T c (t.call c)
  shadows : ∀ {s t}, R s t → Heap.Like (Shadow.Related T) s.shadows t.shadows
  setCells : ∀ {s t}, R s t → ∀ cells, R { s with toCells := cells } { t with toCells := cells }
  setVars : ∀ {s t}, R s t → ∀ r vars,
    R (s.setRoot r { s.root r with vars := vars }) (t.setRoot r { t.root r with vars := vars })
  setCall : ∀ {s t}, R s t → ∀ c f f', CallFrame.Related T c f f' → R (s.setCall c f) (t.setCall c f')
  setShadows : ∀ {s t}, R s t → ∀ hidden hidden', Heap.Like (Shadow.Related T) hidden hidden' →
    R { s with shadows := hidden } { t with shadows := hidden' }

namespace Simulation

variable {T : ThunkRelation} {R : Store → Store → Prop} {s t : Store}

theorem mapCells (sim : Simulation T R) (h : R s t) (f : Cells → Cells) :
    R { s with toCells := f s.toCells } { t with toCells := f t.toCells } := by
  rw [sim.cells h]
  exact sim.setCells h _

theorem mapVars (sim : Simulation T R) (h : R s t) (r : RootRef)
    (change : Bindings Value → Bindings Value) :
    R (s.setRoot r { s.root r with vars := change (s.root r).vars })
      (t.setRoot r { t.root r with vars := change (t.root r).vars }) := by
  rw [sim.vars h]
  exact sim.setVars h r _

/-! ### The steps of assigning and of taking back -/

theorem hide (sim : Simulation T R) (h : R s t) (c : CallRef) (x : String) :
    R (s.hide c x) (t.hide c x) := by
  have hc := sim.call h c
  refine sim.setCall h c _ _ ⟨fun y => ?_, hc.block, hc.hidden⟩
  rw [Bindings.get?_remove, Bindings.get?_remove]
  split
  · exact .none
  · exact hc.params y

theorem remember (sim : Simulation T R) (h : R s t) {p p' : Shadow} (hp : p.Related T p')
    (inner : Undo) : R (s.remember p inner) (t.remember p' inner) := by
  have hshadows := sim.shadows h
  have hc := sim.call h p.call
  rw [Store.remember, Store.remember, ← hp.call, hshadows.size, hc.hidden]
  exact sim.setCall (sim.setShadows h _ _ (hshadows.alloc hp)) _ _ _ ⟨hc.params, hc.block, rfl⟩

theorem finish (sim : Simulation T R) (h : R s t) (k : Nat) : R (s.finish k) (t.finish k) := by
  have hk : (s.shadow k).Related T (t.shadow k) := (sim.shadows h).get k
  have hdone : Shadow.Related T { s.shadow k with done := true } { t.shadow k with done := true } :=
    ⟨hk.call, hk.param, hk.thunk, rfl⟩
  exact sim.setShadows h _ _ ((sim.shadows h).set hdone k)

theorem giveBack (sim : Simulation T R) (h : R s t) {p p' : Shadow} (hp : p.Related T p') :
    R (s.giveBack p) (t.giveBack p') := by
  have hc := sim.call h p.call
  rw [Store.giveBack, Store.giveBack, ← hp.call, ← hp.param]
  refine sim.setCall h _ _ _ ⟨fun y => ?_, hc.block, hc.hidden⟩
  rw [Bindings.get?_put, Bindings.get?_put]
  split
  · rename_i hy
    rw [hy]
    exact .some hp.thunk
  · exact hc.params y

/-! ### Assigning and taking back -/

theorem assignIn (sim : Simulation T R) (h : R s t) (r : RootRef) (x : String) (v : Value)
    (calls : List CallRef) :
    (Store.assignIn r x v calls s).1 = (Store.assignIn r x v calls t).1 ∧
      R (Store.assignIn r x v calls s).2 (Store.assignIn r x v calls t).2 := by
  induction calls generalizing s t with
  | nil =>
    exact ⟨congrArg (fun vars => Undo.rebind r x (Bindings.get? vars x)) (sim.vars h r),
      sim.mapVars h r (Bindings.put · x v)⟩
  | cons c cs ih =>
    have hp : Option.Rel (T c x) (s.arg x c) (t.arg x c) := (sim.call h c).params x
    generalize ho : s.arg x c = o at hp
    generalize ho' : t.arg x c = o' at hp
    cases hp with
    | none =>
      rw [assignIn_cons_of_none ho, assignIn_cons_of_none ho']
      exact ih h
    | @some e e' he =>
      have hshadow : Shadow.Related T ⟨c, x, e, false⟩ ⟨c, x, e', false⟩ := ⟨rfl, rfl, he, rfl⟩
      obtain ⟨hu, hrest⟩ := ih (sim.hide h c x)
      rw [assignIn_cons_of_some ho, assignIn_cons_of_some ho', ← hu, (sim.shadows hrest).size]
      exact ⟨rfl, sim.remember hrest hshadow _⟩

theorem assign (sim : Simulation T R) (h : R s t) (scope : Scope) (x : String) (v : Value) :
    (s.assign scope x v).1 = (t.assign scope x v).1 ∧
      R (s.assign scope x v).2 (t.assign scope x v).2 :=
  sim.assignIn h scope.root x v scope.calls

theorem undo (sim : Simulation T R) (h : R s t) (u : Undo) : R (Store.undo u s) (Store.undo u t) := by
  induction u generalizing s t with
  | rebind r x former =>
    cases former with
    | some v => exact sim.mapVars h r (Bindings.put · x v)
    | none => exact sim.mapVars h r (Bindings.remove · x)
  | unhide k inner ih =>
    have hk : (s.shadow k).Related T (t.shadow k) := (sim.shadows h).get k
    rw [Store.undo_unhide, Store.undo_unhide, hk.done]
    split
    · exact h
    · exact sim.giveBack (ih (sim.finish h k)) hk

theorem restoreParams (sim : Simulation T R) (h : R s t) (c : CallRef) :
    R (s.restoreParams c) (t.restoreParams c) := by
  have hundo : ∀ (us : List Undo) {s t : Store}, R s t →
      R (us.foldl (fun s u => Store.undo u s) s) (us.foldl (fun s u => Store.undo u s) t) := by
    intro us
    induction us with
    | nil => exact fun h => h
    | cons u us ih => exact fun h => ih (sim.undo h u)
  have hc := sim.call h c
  rw [Store.restoreParams, Store.restoreParams]
  simp only [hc.hidden]
  exact hundo _ (sim.setCall h c _ _ ⟨hc.params, hc.block, rfl⟩)

/-! ### Loops -/

theorem beginLoop (sim : Simulation T R) (h : R s t) (scope : Scope) (x : String) (source : Source) :
    (s.beginLoop scope x source).1 = (t.beginLoop scope x source).1 ∧
      (s.beginLoop scope x source).2.1 = (t.beginLoop scope x source).2.1 ∧
      (s.beginLoop scope x source).2.2.1 = (t.beginLoop scope x source).2.2.1 ∧
      R (s.beginLoop scope x source).2.2.2 (t.beginLoop scope x source).2.2.2 := by
  obtain ⟨hvar, h₁⟩ := sim.assign h scope x .null
  have hloops : (s.assign scope x .null).2.loops = (t.assign scope x .null).2.loops :=
    congrArg Cells.loops (sim.cells h₁)
  have hstate : (s.beginLoop scope x source).1 = (t.beginLoop scope x source).1 :=
    congrArg (fun loops => LoopRef.mk (Heap.size loops)) hloops
  have h₂ := sim.mapCells h₁ fun c => { c with loops := c.loops.alloc ⟨source, none, -1⟩ }
  obtain ⟨hloop, h₃⟩ := sim.assign h₂ scope loopVar (.loop (s.beginLoop scope x source).1)
  have hrest : (t.beginLoop scope x source).2.2 =
      { (t.assign scope x .null).2 with
        loops := (t.assign scope x .null).2.loops.alloc ⟨source, none, -1⟩ }.assign scope loopVar
          (.loop (s.beginLoop scope x source).1) := by
    rw [hstate]
    rfl
  rw [hrest]
  exact ⟨hstate, hvar, hloop, h₃⟩

end Simulation

end Store

end Stencil
