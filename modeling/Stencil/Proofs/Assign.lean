import Stencil.Proofs.Frames
import Stencil.Proofs.Script

/-!
# Reading what was assigned

What every name stands for after an assignment, in every scope: the name itself stands for the value
wherever the scope of the assignment reaches, and every other name for what it stood for.
-/

namespace Stencil

namespace Store

variable (s : Store) (root : RootRef) (x : String) (v : Value) (calls : List CallRef)

@[simp] theorem size_calls_assignIn :
    (assignIn root x v calls s).2.calls.size = s.calls.size := by
  induction calls generalizing s with
  | nil => rfl
  | cons c cs ih =>
    cases h : s.arg x c with
    | none => rw [assignIn_cons_of_none h, ih]
    | some t => rw [assignIn_cons_of_some h, size_calls_remember, ih, size_calls_hide]

@[simp] theorem size_roots_assignIn :
    (assignIn root x v calls s).2.roots.size = s.roots.size := by
  induction calls generalizing s with
  | nil => simp [assignIn_nil, assignRoot, setRoot]
  | cons c cs ih =>
    cases h : s.arg x c with
    | none => rw [assignIn_cons_of_none h, ih]
    | some t =>
      rw [assignIn_cons_of_some h]
      exact ih (s.hide c x)

/-- An assignment hides the parameters of its name in the calls that it passes, and no others. -/
theorem arg_assignIn (y : String) (d : CallRef) :
    (assignIn root x v calls s).2.arg y d = if d ∈ calls ∧ y = x then none else s.arg y d := by
  induction calls generalizing s with
  | nil => simp [assignIn_nil, assignRoot, setRoot, arg, call]
  | cons c cs ih =>
    cases h : s.arg x c with
    | none =>
      rw [assignIn_cons_of_none h, ih]
      by_cases hd : d = c ∧ y = x
      · obtain ⟨rfl, rfl⟩ := hd
        simp [h]
      · simp only [List.mem_cons]
        grind
    | some t =>
      have hc : c.index < s.calls.size := lt_of_arg_eq_some h
      rw [assignIn_cons_of_some h, arg_remember (by simpa using hc), ih, arg_hide hc]
      simp only [List.mem_cons]
      grind

theorem block_assignIn (d : CallRef) :
    ((assignIn root x v calls s).2.call d).block = (s.call d).block := by
  induction calls generalizing s with
  | nil => rfl
  | cons c cs ih =>
    cases h : s.arg x c with
    | none => rw [assignIn_cons_of_none h, ih]
    | some t => rw [assignIn_cons_of_some h, block_remember, ih, block_hide]

/-- An assignment gives one variable of one evaluation its value. -/
theorem var_assignIn (hr : root.index < s.roots.size) (y : String) (q : RootRef) :
    (assignIn root x v calls s).2.var y q = if q = root ∧ y = x then some v else s.var y q := by
  induction calls generalizing s with
  | nil => exact var_setRoot_put hr y q
  | cons c cs ih =>
    cases h : s.arg x c with
    | none => rw [assignIn_cons_of_none h, ih s hr]
    | some t =>
      rw [assignIn_cons_of_some h]
      exact ih (s.hide c x) hr

variable (scope : Scope)

theorem arg_assign (y : String) (d : CallRef) :
    (s.assign scope x v).2.arg y d = if d ∈ scope.calls ∧ y = x then none else s.arg y d :=
  arg_assignIn ..

theorem var_assign (hr : scope.root.index < s.roots.size) (y : String) (r : RootRef) :
    (s.assign scope x v).2.var y r = if r = scope.root ∧ y = x then some v else s.var y r :=
  var_assignIn _ _ _ _ _ hr _ _

/-- The block that a name stands for in a scope, whatever is assigned to it. -/
def blockOf (s : Store) (scope : Scope) (x : String) : Option BlockRef :=
  scope.calls.findSome? fun c => (s.call c).blockFor? x

theorem blockOf_of_ne {x : String} (hx : x ≠ bodyContent) : s.blockOf scope x = none := by
  simp [blockOf, CallFrame.blockFor?, hx]

theorem lookupIn_of_hidden (hx : ∀ c ∈ calls, s.arg x c = none) :
    s.lookupIn root x calls =
      ((calls.findSome? fun c => (s.call c).blockFor? x).elim (.stored (s.var x root)) .block) := by
  induction calls with
  | nil => rfl
  | cons c cs ih =>
    have hc : (s.call c).params.get? x = none := hx c (List.mem_cons_self ..)
    rw [lookupIn, hc, List.findSome?_cons]
    cases (s.call c).blockFor? x with
    | some b => rfl
    | none => exact ih fun d hd => hx d (List.mem_cons_of_mem _ hd)

theorem blockFor?_assignIn (y : String) (d : CallRef) :
    ((assignIn root x v calls s).2.call d).blockFor? y = (s.call d).blockFor? y := by
  rw [CallFrame.blockFor?, CallFrame.blockFor?, block_assignIn]

/-- After an assignment the name stands for the value in every scope that the assignment passed, unless it
is the name of a block. -/
theorem lookup_assign_of_subset (hr : scope.root.index < s.roots.size) {other : Scope}
    (hroot : other.root = scope.root) (hcalls : ∀ c ∈ other.calls, c ∈ scope.calls) :
    (s.assign scope x v).2.lookup other x =
      (s.blockOf other x).elim (.stored (some v)) .block := by
  have hx : ∀ c ∈ other.calls, (s.assign scope x v).2.arg x c = none := by
    intro c hc
    rw [arg_assign, if_pos ⟨hcalls c hc, rfl⟩]
  rw [lookup, lookupIn_of_hidden _ _ _ _ hx, blockOf, var_assign _ _ _ _ hr]
  simp only [assign, blockFor?_assignIn, hroot, and_self, if_true]

theorem lookupIn_congr {s s' : Store} {root : RootRef} {x : String} {calls : List CallRef}
    (hc : ∀ c ∈ calls, s'.arg x c = s.arg x c ∧ (s'.call c).blockFor? x = (s.call c).blockFor? x)
    (hr : s'.var x root = s.var x root) : s'.lookupIn root x calls = s.lookupIn root x calls := by
  induction calls with
  | nil => exact congrArg Binding.stored hr
  | cons c cs ih =>
    obtain ⟨ha, hb⟩ := hc c (List.mem_cons_self ..)
    rw [lookupIn, lookupIn, hb, show (s'.call c).params.get? x = _ from ha,
      ih fun d hd => hc d (List.mem_cons_of_mem _ hd)]
    rfl

/-- An assignment does not change what another name stands for, in any scope. -/
theorem lookup_assign_of_ne (hr : scope.root.index < s.roots.size) {y : String} (hy : y ≠ x)
    (other : Scope) : (s.assign scope x v).2.lookup other y = s.lookup other y := by
  refine lookupIn_congr (fun c _ => ⟨?_, blockFor?_assignIn ..⟩) ?_
  · rw [arg_assign, if_neg (by simp [hy])]
  · rw [var_assign _ _ _ _ hr, if_neg (by simp [hy])]

end Store

/-- After an assignment in a scope the name is defined there, and reading it gives the value. The name of
the block given to a call is the exception: where a call of the scope has a block, it stays the
innermost one. -/
theorem read_after_assign (d : Deeper) (s : Store) (scope : Scope) (x : String) (v : Value)
    (hr : scope.root.index < s.roots.size) :
    (s.assign scope x v).2.isDefined scope x = true ∧
    (do Script.assign x v; Script.read x : Script scope Value).run d s =
      .ok ((s.blockOf scope x).elim v .block) (s.assign scope x v).2 ∧
    (x ≠ bodyContent → s.blockOf scope x = none) := by
  have hx := s.lookup_assign_of_subset x v scope hr rfl fun _ hc => hc
  refine ⟨?_, ?_, fun hx => s.blockOf_of_ne scope hx⟩
  · rw [Store.isDefined_eq, hx]
    cases s.blockOf scope x <;> rfl
  · show Run.read d scope x (s.assign scope x v).2 = _
    rw [Run.read_eq, hx]
    cases s.blockOf scope x <;> rfl

/-- In a call of a macro with a parameter of that name, inside one with another argument for it. -/
theorem read_after_assign_in_calls :
    let t : Thunk := ⟨.literal default (.int 1), ⟨[], ⟨0⟩⟩⟩
    let s : Store := { roots := ⟨#[default]⟩, calls := ⟨#[⟨[("p", t)], none, []⟩, ⟨[("p", t)], none, []⟩]⟩ }
    let scope : Scope := ⟨[⟨1⟩, ⟨0⟩], ⟨0⟩⟩
    scope.root.index < s.roots.size ∧
    (s.assign scope "p" (.int 2)).2.isDefined scope "p" = true ∧
    (do Script.assign "p" (.int 2); Script.read "p" : Script scope Value).run Deeper.full s =
      .ok (.int 2) (s.assign scope "p" (.int 2)).2 := by
  intro t s scope
  have h := read_after_assign Deeper.full s scope "p" (.int 2) (by decide)
  exact ⟨by decide, h.1, h.2.1⟩

/-- In a call with a block, what is assigned to the name of the block is not read. -/
theorem block_name_hides_assigned :
    let s : Store := { roots := ⟨#[default]⟩ }
    let p : Place := ⟨none, 1⟩
    let call := s.beginCall ⟨[], ⟨0⟩⟩ ⟨p, "w", [], []⟩ [] (some [.text p "b"])
    let scope : Scope := ⟨[call.1], ⟨0⟩⟩
    let read := (do Script.assign bodyContent (.str "x"); Script.read bodyContent : Script scope Value)
    read.run Deeper.full call.2 =
        .ok (.block ⟨0, "#@w"⟩) (call.2.assign scope bodyContent (.str "x")).2 ∧
      ∀ s', read.run Deeper.full call.2 ≠ .ok (.str "x") s' := by
  intro s p call scope read
  have h : read.run Deeper.full call.2 =
      .ok (.block ⟨0, "#@w"⟩) (call.2.assign scope bodyContent (.str "x")).2 := rfl
  refine ⟨h, fun s' hx => ?_⟩
  rw [h] at hx
  cases hx

end Stencil
