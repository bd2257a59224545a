import Stencil.Proofs.Aside
import Stencil.Proofs.Mention
import Stencil.Proofs.Progress
import Stencil.Proofs.Simulation

/-!
# Stores that differ in one argument

Two stores may be the same but for the argument of one parameter of one call, as long as nothing that is kept
in the scope of that call mentions the parameter. Then every other name stands for the same in both, and
whatever is done in both keeps them so.
-/

namespace Stencil

/-- A parameter of a call. -/
structure Parameter where
  call : CallRef
  name : String

namespace Parameter

/-- Whether what mentions some names in a scope cannot come upon the argument of a parameter. -/
def Unmentioned (q : Parameter) (scope : Scope) (names : List String) : Prop :=
  q.call ∈ scope.calls → q.name ∉ names

/-- What two stores may hold for a parameter: any arguments if it is the one in which they differ, and
otherwise the same argument, which cannot come upon it. -/
def SameArgument (q : Parameter) (c : CallRef) (x : String) (t t' : Thunk) : Prop :=
  (c = q.call ∧ x = q.name) ∨ (t = t' ∧ q.Unmentioned t.scope t.expr.names)

/-- A name that may be come upon in a scope: any but the parameter, if the scope is in its call. -/
def Allows (q : Parameter) (scope : Scope) (x : String) : Prop :=
  q.call ∈ scope.calls → x ≠ q.name

theorem Unmentioned.allows {q : Parameter} {scope : Scope} {names : List String}
    (h : q.Unmentioned scope names) : ∀ x ∈ names, q.Allows scope x :=
  fun _ hx hc he => h hc (he ▸ hx)

theorem unmentioned_of_allows {q : Parameter} {scope : Scope} {names : List String}
    (h : ∀ x ∈ names, q.Allows scope x) : q.Unmentioned scope names :=
  fun hc hq => h q.name hq hc rfl

end Parameter

namespace Store

/-- Whether two stores are the same but for the argument of a parameter, which nothing that is kept in the
scope of its call mentions. -/
structure SameBut (q : Parameter) (s t : Store) : Prop where
  rest : ∃ calls shadows, t = s.withFrames s.roots calls shadows s.blocks
  size : s.calls.size = t.calls.size
  call : ∀ c, (s.call c).Related q.SameArgument c (t.call c)
  shadows : Heap.Like (Shadow.Related q.SameArgument) s.shadows t.shadows
  blocks : ∀ b, q.Unmentioned (s.block b).scope (nodesNames (s.block b).body)

namespace SameBut

variable {q : Parameter} {s t : Store} {c : CallRef} {r : RootRef}

/-- What happens to the rest of the store. -/
theorem beside {calls : Heap CallFrame} {shadows : Heap Shadow}
    (h : SameBut q s (s.withFrames s.roots calls shadows s.blocks)) {roots : Heap RootFrame} (s' : Store) :
    SameBut q (s'.withFrames roots s.calls s.shadows s.blocks)
      (s'.withFrames roots calls shadows s.blocks) :=
  ⟨⟨calls, shadows, rfl⟩, h.size, h.call, h.shadows, h.blocks⟩

theorem root_eq (h : SameBut q s t) (r : RootRef) : s.root r = t.root r := by
  obtain ⟨_, _, rfl⟩ := h.rest
  rfl

theorem block_eq (h : SameBut q s t) (b : BlockRef) : s.block b = t.block b := by
  obtain ⟨_, _, rfl⟩ := h.rest
  rfl

theorem written_eq (h : SameBut q s t) : s.written = t.written := by
  obtain ⟨_, _, rfl⟩ := h.rest
  rfl

theorem setRoot (h : SameBut q s t) (r : RootRef) (f : RootFrame) :
    SameBut q (s.setRoot r f) (t.setRoot r f) := by
  obtain ⟨_, _, rfl⟩ := h.rest
  exact h.beside (s.setRoot r f)

theorem withWritten (h : SameBut q s t) (text : String) :
    SameBut q { s with written := text } { t with written := text } := by
  obtain ⟨_, _, rfl⟩ := h.rest
  exact h.beside { s with written := text }

theorem setCall (h : SameBut q s t) {f f' : CallFrame} (hf : f.Related q.SameArgument c f') :
    SameBut q (s.setCall c f) (t.setCall c f') := by
  refine ⟨?_, by simp [Store.setCall, h.size], fun d => ?_, h.shadows, h.blocks⟩
  · obtain ⟨_, _, rfl⟩ := h.rest
    exact ⟨_, _, rfl⟩
  · by_cases hc : c.index < s.calls.size
    · rw [call_setCall hc, call_setCall (h.size ▸ hc)]
      split
      · rename_i hd
        exact hd ▸ hf
      · exact h.call d
    · have hge := Nat.le_of_not_lt hc
      rw [setCall_of_ge hge, setCall_of_ge (h.size ▸ hge)]
      exact h.call d

/-- Whatever is assigned in both stores, they stay the same but for the argument. -/
theorem simulation (q : Parameter) : Simulation q.SameArgument (SameBut q) where
  cells h := by
    obtain ⟨_, _, rfl⟩ := h.rest
    rfl
  vars h r := congrArg RootFrame.vars (h.root_eq r)
  call h := h.call
  shadows h := h.shadows
  setCells {s t} h cells := by
    obtain ⟨_, _, rfl⟩ := h.rest
    exact h.beside { s with toCells := cells }
  setVars h r vars := by
    rw [h.root_eq r]
    exact h.setRoot r _
  setCall h _ _ _ hf := h.setCall hf
  setShadows h hidden hidden' hs := by
    obtain ⟨_, _, rfl⟩ := h.rest
    exact ⟨⟨_, _, rfl⟩, h.size, h.call, hs, h.blocks⟩

/-! ### What names stand for -/

/-- A name that may be come upon stands for the same in both stores, and an argument that it stands for
cannot come upon the one in which they differ. -/
theorem lookupIn (h : SameBut q s t) (root : RootRef) {x : String} {calls : List CallRef}
    (hx : q.call ∈ calls → x ≠ q.name) :
    s.lookupIn root x calls = t.lookupIn root x calls ∧
      ∀ c e, s.lookupIn root x calls = .argument c e → q.Unmentioned e.scope e.expr.names := by
  induction calls with
  | nil =>
    rw [Store.lookupIn, Store.lookupIn, h.root_eq]
    exact ⟨rfl, fun _ _ he => by cases he⟩
  | cons c cs ih =>
    have hp := (h.call c).params x
    rw [Store.lookupIn, Store.lookupIn, CallFrame.blockFor?, CallFrame.blockFor?, (h.call c).block]
    generalize (s.call c).params.get? x = o at hp
    generalize (t.call c).params.get? x = o' at hp
    generalize (if x = bodyContent then (t.call c).block else none) = b
    cases b with
    | some b => exact ⟨rfl, fun _ _ he => by cases he⟩
    | none =>
      cases hp with
      | none => exact ih fun hc => hx (List.mem_cons_of_mem _ hc)
      | some he =>
        obtain ⟨rfl, hq⟩ | ⟨rfl, hq⟩ := he
        · exact absurd hq (hx (List.mem_cons_self ..))
        · refine ⟨rfl, fun _ _ ht => ?_⟩
          cases ht
          exact hq

theorem lookup (h : SameBut q s t) {scope : Scope} {x : String} (hx : q.Allows scope x) :
    s.lookup scope x = t.lookup scope x ∧
      ∀ c e, s.lookup scope x = .argument c e → q.Unmentioned e.scope e.expr.names :=
  h.lookupIn scope.root hx

/-! ### Blocks, calls and templates -/

theorem addBlock (h : SameBut q s t) {b : Block} (hb : q.Unmentioned b.scope (nodesNames b.body)) :
    SameBut q (s.addBlock b) (t.addBlock b) := by
  refine ⟨?_, h.size, h.call, h.shadows, fun r => ?_⟩
  · obtain ⟨_, _, rfl⟩ := h.rest
    exact ⟨_, _, rfl⟩
  · have hr := h.blocks r
    rw [Store.block, Std.TreeMap.getD_eq_getD_getElem?] at hr ⊢
    rw [Store.addBlock, Std.TreeMap.getElem?_insert]
    split
    · exact hb
    · exact hr

theorem enterCall (h : SameBut q s t) {params params' : Bindings Thunk}
    (hp : ∀ x, Option.Rel (q.SameArgument ⟨s.calls.size⟩ x) (params.get? x) (params'.get? x))
    {block : Option Block} (hb : ∀ b ∈ block, q.Unmentioned b.scope (nodesNames b.body)) :
    (s.enterCall params block).1 = (t.enterCall params' block).1 ∧
      SameBut q (s.enterCall params block).2 (t.enterCall params' block).2 := by
  have halloc : ∀ {s t : Store} {r : Option BlockRef}, SameBut q s t →
      (∀ x, Option.Rel (q.SameArgument ⟨s.calls.size⟩ x) (params.get? x) (params'.get? x)) →
      SameBut q { s with calls := s.calls.alloc ⟨params, r, []⟩ }
        { t with calls := t.calls.alloc ⟨params', r, []⟩ } := by
    intro s t r h hp
    refine ⟨?_, by simp [h.size], fun c => ?_, h.shadows, h.blocks⟩
    · obtain ⟨_, _, rfl⟩ := h.rest
      exact ⟨_, _, rfl⟩
    · rw [Store.call, Store.call, Heap.get_alloc, Heap.get_alloc, ← h.size]
      split
      · rename_i hc
        obtain rfl : c = ⟨s.calls.size⟩ := CallRef.index_inj.1 hc
        exact ⟨hp, rfl, rfl⟩
      · exact h.call c
  cases block with
  | none => exact ⟨congrArg CallRef.mk h.size, halloc h hp⟩
  | some b => exact ⟨congrArg CallRef.mk h.size, halloc (h.addBlock (hb b rfl)) hp⟩

theorem beginCall (h : SameBut q s t) {scope : Scope} {m : MacroDef} {args args' : List Expr}
    (hp : ∀ x, Option.Rel (q.SameArgument ⟨s.calls.size⟩ x) ((callParams scope m args).get? x)
      ((callParams scope m args').get? x))
    {body : Option (List Node)} (hb : ∀ nodes ∈ body, q.Unmentioned scope (nodesNames nodes)) :
    (s.beginCall scope m args body).1 = (t.beginCall scope m args' body).1 ∧
      SameBut q (s.beginCall scope m args body).2 (t.beginCall scope m args' body).2 := by
  cases body with
  | none => exact h.enterCall hp (fun _ hmem => by cases hmem)
  | some nodes =>
    have hcells := (simulation q).mapCells h fun c => { c with nextId := c.nextId + 1 }
    obtain ⟨_, _, rfl⟩ := h.rest
    refine hcells.enterCall hp fun b hmem => ?_
    cases hmem
    exact hb nodes rfl

theorem addMacros (h : SameBut q s t) (r : RootRef) (ms : List MacroDef) :
    SameBut q (s.addMacros r ms) (t.addMacros r ms) := by
  rw [Store.addMacros, Store.addMacros, h.root_eq]
  exact h.setRoot r _

end SameBut

/-! ### Calls whose arguments differ -/

section

variable {q : Parameter} {s : Store} {scope : Scope} {m : MacroDef} {args args' : List Expr}

/-- The arguments of a call that mentions only what it may come upon. -/
theorem sameArgument_callParams (h : ∀ x ∈ exprsNames args, q.Allows scope x) (c : CallRef) (x : String) :
    Option.Rel (q.SameArgument c x) ((callParams scope m args).get? x)
      ((callParams scope m args).get? x) := by
  cases hx : (callParams scope m args).get? x with
  | none => exact .none
  | some e =>
    refine .some (.inr ⟨rfl, ?_⟩)
    rw [scope_of_callParams hx]
    refine Parameter.unmentioned_of_allows fun y hy => h y (mem_exprsNames.2 ⟨e.expr, ?_, hy⟩)
    obtain ⟨e', he, rfl⟩ := List.mem_map.1 (List.of_mem_zip (Bindings.mem_of_get?_ofList hx)).2
    exact he

/-- The arguments of a call, and the same but for those of a parameter. -/
theorem sameArgument_callParams_of_ne (hl : args'.length = args.length)
    (he : ∀ i : Nat, m.params[i]? ≠ some q.name → args'[i]? = args[i]?) (hq : q.call ∉ scope.calls)
    (x : String) :
    Option.Rel (q.SameArgument q.call x) ((callParams scope m args).get? x)
      ((callParams scope m args').get? x) := by
  refine Bindings.rel_ofList (List.forall₂_iff_get.2 ⟨by simp [hl], fun i hi hi' => ?_⟩) x
  simp only [List.length_zip, List.length_map, Nat.lt_min] at hi hi'
  simp only [List.get_eq_getElem, List.getElem_zip, List.getElem_map, true_and]
  by_cases hx : m.params[i] = q.name
  · exact .inl ⟨rfl, hx⟩
  · refine .inr ⟨?_, fun hc => absurd hc hq⟩
    have hget := he i (by rw [List.getElem?_eq_getElem hi.1]; exact fun h => hx (Option.some.inj h))
    rw [List.getElem?_eq_getElem hi.2, List.getElem?_eq_getElem hi'.2] at hget
    rw [Option.some.inj hget]

/-- Nothing that is kept in a sound store can come upon an argument of a call that is still to begin. -/
theorem Sound.sameBut (hs : s.Sound) (hv : scope.Valid s) (x : String) :
    SameBut ⟨⟨s.calls.size⟩, x⟩ s s := by
  have hnew : ∀ {scope : Scope} {names : List String}, scope.Valid s →
      Parameter.Unmentioned ⟨⟨s.calls.size⟩, x⟩ scope names :=
    fun hv hc => absurd (hv.calls _ hc) (Nat.lt_irrefl _)
  refine ⟨⟨_, _, rfl⟩, rfl, fun c => ⟨fun y => ?_, rfl, rfl⟩, ⟨rfl, fun k => ⟨rfl, rfl, .inr ⟨rfl, ?_⟩, rfl⟩⟩,
    fun b => hnew (hs.valid_block hv b)⟩
  · cases hy : (s.call c).params.get? y with
    | none => exact .none
    | some e => exact .some (.inr ⟨rfl, hnew (hs.params c y e hy)⟩)
  · rcases Nat.lt_or_ge k s.shadows.size with hk | hk
    · exact hnew (hs.shadows k hk).2
    · rw [Heap.get, Array.getD_eq_getD_getElem?, Array.getElem?_eq_none hk]
      exact hnew (valid_default hv)

/-- Two calls of a macro that differ only in the argument of a parameter begin the same but for it. -/
theorem SameBut.beginCall_of_ne (hs : s.Sound) (hv : scope.Valid s) {p : String}
    (hl : args'.length = args.length) (he : ∀ i : Nat, m.params[i]? ≠ some p → args'[i]? = args[i]?)
    (body : Option (List Node)) :
    SameBut ⟨⟨s.calls.size⟩, p⟩ (s.beginCall scope m args body).2 (s.beginCall scope m args' body).2 := by
  have hq : (⟨s.calls.size⟩ : CallRef) ∉ scope.calls := fun hc => Nat.lt_irrefl _ (hv.calls _ hc)
  exact ((hs.sameBut hv p).beginCall (sameArgument_callParams_of_ne hl he hq)
    fun _ _ hc => absurd hc hq).2

end

end Store

end Stencil
