import Stencil.Proofs.Answer
import Stencil.Proofs.Like
import Stencil.Proofs.Simulation

/-!
# Stores of runs side by side

Two runs go side by side when their stores hold the same host cells and the same text, trees that are
alike, and macros and loaders that give alike answers. The stores may have loaded different templates
before. Assigning and taking back, and beginning and ending loops and calls, keep them so.
-/

namespace Stencil

/-- Stops that differ in places only, or in any words where likeness is not strict. -/
inductive Halt.Like (strict : Bool) : Halt → Halt → Prop
  | leave {p p' b} (hp : p.Like strict p') : Halt.Like strict (.leave p b) (.leave p' b)
  | failure {f f'} (hf : strict = true → f = f') : Halt.Like strict (.failure f) (.failure f')
  | exhausted : Halt.Like strict .exhausted .exhausted

/-- Answers of loaders that differ in places only. -/
inductive LikeAnswer (strict : Bool) : Except Halt Document → Except Halt Document → Prop
  | ok {d d'} (h : LikeDocument strict d d') : LikeAnswer strict (.ok d) (.ok d')
  | error {e e'} (h : e.Like strict e') : LikeAnswer strict (.error e) (.error e')

/-- What two runs side by side keep: whether places are the same in both, what loading gives in each, and
which loaders of the one go with which loaders of the other, where they give alike answers. -/
structure Pairing where
  strict : Bool
  left : Library
  right : Library
  paired : LoaderRef → LoaderRef → Prop
  alike : ∀ {r r'}, paired r r' → ∀ name, LikeAnswer strict (left.answer r name) (right.answer r' name)

/-- Thunks that differ in places only. -/
structure Thunk.Like (strict : Bool) (t t' : Thunk) : Prop where
  expr : LikeExpr strict t.expr t'.expr
  scope : t.scope = t'.scope

/-- Macro calls with alike arguments. -/
structure CallFrame.Like (strict : Bool) (f f' : CallFrame) : Prop where
  params : ∀ x, Option.Rel (Thunk.Like strict) (f.params.get? x) (f'.params.get? x)
  block : f.block = f'.block
  hidden : f.hidden = f'.hidden

/-- Hidden parameters with alike arguments. -/
structure Shadow.Like (strict : Bool) (p p' : Shadow) : Prop where
  call : p.call = p'.call
  param : p.param = p'.param
  thunk : p.thunk.Like strict p'.thunk
  done : p.done = p'.done

/-- Blocks that differ in places only. -/
structure Block.Like (strict : Bool) (b b' : Block) : Prop where
  ref : b.ref = b'.ref
  body : LikeNodes strict b.body b'.body
  scope : b.scope = b'.scope

/-- Evaluations that know alike macros, and whose loaders go together. -/
structure RootFrame.Like (π : Pairing) (f f' : RootFrame) : Prop where
  vars : f.vars = f'.vars
  host : f.host = f'.host
  macros : ∀ name, Option.Rel (LikeMacro π.strict) (findMacro? f.macros name) (findMacro? f'.macros name)
  loader : π.paired f.loader f'.loader

/-- Bindings that are the same but for places in the argument. -/
inductive LikeBinding (strict : Bool) : Binding → Binding → Prop
  | block {b} : LikeBinding strict (.block b) (.block b)
  | argument {c t t'} (ht : t.Like strict t') : LikeBinding strict (.argument c t) (.argument c t')
  | stored {v} : LikeBinding strict (.stored v) (.stored v)

/-- Stores of runs that go side by side. -/
structure Store.Twins (π : Pairing) (s t : Store) : Prop where
  cells : s.toCells = t.toCells
  written : s.written = t.written
  left : s.library = π.left
  right : t.library = π.right
  roots : Heap.Like (RootFrame.Like π) s.roots t.roots
  calls : Heap.Like (CallFrame.Like π.strict) s.calls t.calls
  shadows : Heap.Like (Shadow.Like π.strict) s.shadows t.shadows
  blocks : ∀ b, (s.block b).Like π.strict (t.block b)

section Refl

variable {strict : Bool}

theorem Halt.Like.refl : (h : Halt) → h.Like strict h
  | .leave p _ => .leave (.refl p)
  | .failure _ => .failure fun _ => rfl
  | .exhausted => .exhausted

theorem Halt.Like.eq {h h' : Halt} (hh : h.Like true h') : h = h' := by
  cases hh with
  | leave hp => rw [hp rfl]
  | failure hf => rw [hf rfl]
  | exhausted => rfl

theorem LikeAnswer.refl : (a : Except Halt Document) → LikeAnswer strict a a
  | .ok d => .ok (.refl d)
  | .error e => .error (.refl e)

theorem LikeAnswer.of_eq {a a' : Except Halt Document} (h : a = a') : LikeAnswer strict a a' :=
  h ▸ .refl a

theorem Thunk.Like.refl (t : Thunk) : t.Like strict t :=
  ⟨.refl _, rfl⟩

theorem relOption_refl {α : Type} {R : α → α → Prop} (hR : ∀ a, R a a) : (o : Option α) → Option.Rel R o o
  | none => .none
  | some a => .some (hR a)

/-- A store goes with itself, if each of its loaders that is in use does. -/
theorem Store.Twins.refl {π : Pairing} {s : Store} (hl : s.library = π.left) (hr : s.library = π.right)
    (hp : ∀ r, π.paired (s.root r).loader (s.root r).loader) : Store.Twins π s s where
  cells := rfl
  written := rfl
  left := hl
  right := hr
  roots := ⟨rfl, fun i => ⟨rfl, rfl, fun _ => relOption_refl .refl _, hp ⟨i⟩⟩⟩
  calls := .refl (fun _ => ⟨fun _ => relOption_refl .refl _, rfl, rfl⟩) _
  shadows := .refl (fun _ => ⟨rfl, rfl, .refl _, rfl⟩) _
  blocks := fun _ => ⟨rfl, .refl _, rfl⟩

end Refl

namespace Store

variable {π : Pairing} {s t s' t' : Store} {c : CallRef} {r : RootRef} {x : String}

theorem Twins.call (h : Twins π s t) (c : CallRef) : (s.call c).Like π.strict (t.call c) :=
  h.calls.get c.index

theorem Twins.root (h : Twins π s t) (r : RootRef) : (s.root r).Like π (t.root r) :=
  h.roots.get r.index

theorem Twins.shadow (h : Twins π s t) (k : Nat) : (s.shadow k).Like π.strict (t.shadow k) :=
  h.shadows.get k

/-- What happens in the cells and to the text alone. -/
theorem Twins.withCells (h : Twins π s t) (cells : Cells) :
    Twins π { s with toCells := cells } { t with toCells := cells } :=
  ⟨rfl, h.written, h.left, h.right, h.roots, h.calls, h.shadows, h.blocks⟩

theorem Twins.withWritten (h : Twins π s t) (text : String) :
    Twins π { s with written := text } { t with written := text } :=
  ⟨h.cells, rfl, h.left, h.right, h.roots, h.calls, h.shadows, h.blocks⟩

theorem Twins.setCall (h : Twins π s t) {f f' : CallFrame} (hf : f.Like π.strict f') :
    Twins π (s.setCall c f) (t.setCall c f') :=
  ⟨h.cells, h.written, h.left, h.right, h.roots, h.calls.set hf _, h.shadows, h.blocks⟩

theorem Twins.setRoot (h : Twins π s t) {f f' : RootFrame} (hf : f.Like π f') :
    Twins π (s.setRoot r f) (t.setRoot r f') :=
  ⟨h.cells, h.written, h.left, h.right, h.roots.set hf _, h.calls, h.shadows, h.blocks⟩

/-- Reading templates changes nothing that matters to the run on either side. -/
theorem Twins.reads (h : Twins π s t) (hs : s.Reads s') (ht : t.Reads t') : Twins π s' t' := by
  obtain ⟨⟨_, _, _, rfl⟩, hs⟩ := hs
  obtain ⟨⟨_, _, _, rfl⟩, ht⟩ := ht
  exact ⟨h.cells, h.written, hs.trans h.left, ht.trans h.right, h.roots, h.calls, h.shadows, h.blocks⟩

/-! ### What names stand for -/

/-- A name stands for alike things in both stores. -/
theorem Twins.lookupIn (h : Twins π s t) (root : RootRef) (x : String) (calls : List CallRef) :
    LikeBinding π.strict (s.lookupIn root x calls) (t.lookupIn root x calls) := by
  induction calls with
  | nil =>
    rw [Store.lookupIn, Store.lookupIn, (h.root root).vars]
    exact .stored
  | cons c cs ih =>
    have hp := (h.call c).params x
    rw [Store.lookupIn, Store.lookupIn, CallFrame.blockFor?, CallFrame.blockFor?, (h.call c).block]
    generalize (s.call c).params.get? x = o at hp
    generalize (t.call c).params.get? x = o' at hp
    generalize (if x = bodyContent then (t.call c).block else none) = b
    cases b with
    | some b => exact .block
    | none =>
      cases hp with
      | some ht => exact .argument ht
      | none => exact ih

theorem Twins.lookup (h : Twins π s t) (scope : Scope) (x : String) :
    LikeBinding π.strict (s.lookup scope x) (t.lookup scope x) :=
  h.lookupIn scope.root x scope.calls

theorem Twins.isDefined_eq (h : Twins π s t) (scope : Scope) (x : String) :
    s.isDefined scope x = t.isDefined scope x := by
  rw [Store.isDefined_eq, Store.isDefined_eq]
  have hb := h.lookup scope x
  generalize s.lookup scope x = b at hb
  generalize t.lookup scope x = b' at hb
  cases hb <;> rfl

/-! ### Assigning and taking back -/

/-- How the arguments of two runs side by side are related. -/
def likeThunks (π : Pairing) : ThunkRelation :=
  fun _ _ => Thunk.Like π.strict

/-- Whatever is assigned in both stores, the runs stay side by side. -/
theorem Twins.simulation (π : Pairing) : Simulation (likeThunks π) (Twins π) where
  cells h := h.cells
  vars h r := (h.root r).vars
  call h c := ⟨(h.call c).params, (h.call c).block, (h.call c).hidden⟩
  shadows h := ⟨h.shadows.size, fun k => ⟨(h.shadow k).call, (h.shadow k).param, (h.shadow k).thunk,
    (h.shadow k).done⟩⟩
  setCells h := h.withCells
  setVars h r _ := h.setRoot ⟨rfl, (h.root r).host, (h.root r).macros, (h.root r).loader⟩
  setCall h _ _ _ hf := h.setCall ⟨hf.params, hf.block, hf.hidden⟩
  setShadows h _ _ hs := ⟨h.cells, h.written, h.left, h.right, h.roots, h.calls,
    ⟨hs.size, fun k => ⟨(hs.get k).call, (hs.get k).param, (hs.get k).thunk, (hs.get k).done⟩⟩, h.blocks⟩

/-! ### Calls, blocks and templates -/

theorem Twins.addBlock (h : Twins π s t) {b b' : Block} (hb : b.Like π.strict b') :
    Twins π (s.addBlock b) (t.addBlock b') := by
  refine ⟨h.cells, h.written, h.left, h.right, h.roots, h.calls, h.shadows, fun r => ?_⟩
  have hid : b.id = b'.id := congrArg BlockRef.id hb.ref
  have hr := h.blocks r
  rw [Store.block, Store.block, Std.TreeMap.getD_eq_getD_getElem?,
    Std.TreeMap.getD_eq_getD_getElem?] at hr ⊢
  rw [Store.addBlock, Store.addBlock, Std.TreeMap.getElem?_insert, Std.TreeMap.getElem?_insert, ← hid]
  split
  · exact hb
  · exact hr

/-- Arguments bound to the parameters of a macro are alike when the expressions are. -/
theorem likeThunk_callParams {strict : Bool} {m m' : MacroDef} (hm : LikeMacro strict m m')
    {args args' : List Expr} (ha : LikeExprs strict args args') (scope : Scope) (x : String) :
    Option.Rel (Thunk.Like strict) ((callParams scope m args).get? x)
      ((callParams scope m' args').get? x) := by
  have hzip : ∀ (ps : List String) {args args' : List Expr}, LikeExprs strict args args' →
      List.Forall₂ (fun p p' : String × Thunk => p.1 = p'.1 ∧ p.2.Like strict p'.2)
        (ps.zip (args.map fun e => ⟨e, scope⟩)) (ps.zip (args'.map fun e => ⟨e, scope⟩)) := by
    intro ps
    induction ps with
    | nil => exact fun _ => .nil
    | cons p ps ih =>
      intro args args' ha
      cases ha with
      | nil => exact .nil
      | cons he hes => exact .cons ⟨rfl, he, rfl⟩ (ih hes)
  rw [callParams, callParams, ← hm.params]
  exact Bindings.rel_ofList (R := fun _ => Thunk.Like strict) (hzip m.params ha) x

theorem Twins.enterCall (h : Twins π s t) {params params' : Bindings Thunk}
    (hp : ∀ x, Option.Rel (Thunk.Like π.strict) (params.get? x) (params'.get? x))
    {b b' : Option Block} (hb : Option.Rel (Block.Like π.strict) b b') :
    (s.enterCall params b).1 = (t.enterCall params' b').1 ∧
      Twins π (s.enterCall params b).2 (t.enterCall params' b').2 := by
  have halloc : ∀ {s t : Store} {r : Option BlockRef}, Twins π s t →
      Twins π { s with calls := s.calls.alloc ⟨params, r, []⟩ }
        { t with calls := t.calls.alloc ⟨params', r, []⟩ } := fun h =>
    ⟨h.cells, h.written, h.left, h.right, h.roots, h.calls.alloc ⟨hp, rfl, rfl⟩, h.shadows, h.blocks⟩
  cases hb with
  | none => exact ⟨congrArg CallRef.mk h.calls.size, halloc h⟩
  | @some b b' hb =>
    refine ⟨congrArg CallRef.mk h.calls.size, ?_⟩
    have h' := halloc (r := some b.ref) (h.addBlock hb)
    rw [Store.enterCall, Store.enterCall, Option.map_some, Option.map_some, ← hb.ref]
    exact h'

/-- Bodies that may be given to a call. -/
abbrev LikeBody (strict : Bool) : Option (List Node) → Option (List Node) → Prop :=
  Option.Rel (LikeNodes strict)

theorem Twins.beginCall (h : Twins π s t) (scope : Scope) {m m' : MacroDef}
    (hm : LikeMacro π.strict m m') {args args' : List Expr} (ha : LikeExprs π.strict args args')
    {body body' : Option (List Node)} (hb : LikeBody π.strict body body') :
    (s.beginCall scope m args body).1 = (t.beginCall scope m' args' body').1 ∧
      Twins π (s.beginCall scope m args body).2 (t.beginCall scope m' args' body').2 := by
  have hparams := likeThunk_callParams hm ha scope
  cases hb with
  | none => exact h.enterCall hparams .none
  | some hnodes =>
    have hnext : s.nextId = t.nextId := congrArg Cells.nextId h.cells
    have hcells := (simulation π).mapCells h fun c => { c with nextId := c.nextId + 1 }
    refine hcells.enterCall hparams (.some ⟨?_, hnodes, rfl⟩)
    rw [Block.ref, Block.ref, hnext, hm.name]

theorem findMacro_addMacro (ms : List MacroDef) (m : MacroDef) (name : String) :
    findMacro? (addMacro ms m) name = (findMacro? ms name).or (if m.name == name then some m else none) := by
  rw [addMacro]
  cases hm : findMacro? ms m.name with
  | none =>
    simp only
    rw [findMacro?, findMacro?, List.find?_append]
    simp only [List.find?_cons, List.find?_nil]
    cases m.name == name <;> rfl
  | some m₀ =>
    by_cases hn : m.name == name
    · rw [eq_of_beq hn] at hm
      rw [hm]
      rfl
    · simp only [hn]
      cases findMacro? ms name <;> rfl

theorem findMacro_foldl_addMacro (ms known : List MacroDef) (name : String) :
    findMacro? (ms.foldl addMacro known) name = (findMacro? known name).or (findMacro? ms name) := by
  induction ms generalizing known with
  | nil => simp [findMacro?]
  | cons m ms ih =>
    rw [List.foldl_cons, ih, findMacro_addMacro, Option.or_assoc]
    congr 1
    rw [findMacro?, findMacro?, List.find?_cons]
    cases m.name == name <;> rfl

theorem likeMacro_addMacros {strict : Bool} {ms ms' : List MacroDef}
    (hms : List.Forall₂ (LikeMacro strict) ms ms') {known known' : List MacroDef}
    (hk : ∀ name, Option.Rel (LikeMacro strict) (findMacro? known name) (findMacro? known' name))
    (name : String) :
    Option.Rel (LikeMacro strict) (findMacro? (ms.foldl addMacro known) name)
      (findMacro? (ms'.foldl addMacro known') name) := by
  induction hms generalizing known known' with
  | nil => exact hk name
  | @cons m m' _ _ hm _ ih =>
    refine ih fun y => ?_
    rw [findMacro_addMacro, findMacro_addMacro, hm.name]
    have hy := hk y
    generalize findMacro? known y = o at hy
    generalize findMacro? known' y = o' at hy
    cases hy with
    | some h => exact .some h
    | none =>
      split
      · exact .some hm
      · exact .none

theorem Twins.addMacros (h : Twins π s t) (r : RootRef) {ms ms' : List MacroDef}
    (hms : List.Forall₂ (LikeMacro π.strict) ms ms') : Twins π (s.addMacros r ms) (t.addMacros r ms') :=
  h.setRoot ⟨(h.root r).vars, (h.root r).host, likeMacro_addMacros hms (h.root r).macros,
    (h.root r).loader⟩

end Store

end Stencil
