import Stencil.Proofs.Progress
import Stencil.Proofs.RootFrames

/-!
# Stores that differ in one name

Two stores that are alike but for one name: its variables, its arguments in the calls that were there
when they came to differ, and the parameters of that name that were hidden in only one of them. Assigning
other names, taking that back, and beginning and ending calls keep two such stores alike.
-/

namespace Stencil

/-- How two stores may differ: in a name, for the calls before a certain one, and in that the second store
has some more hidden parameters, after a certain number of common ones. -/
structure Difference where
  name : String
  calls : Nat
  shadows : Nat
  extra : Nat

namespace Difference

/-- The number in the second store of a hidden parameter of the first. -/
def shift (δ : Difference) (h : Nat) : Nat :=
  if h < δ.shadows then h else h + δ.extra

theorem shift_lt (δ : Difference) {h n : Nat} (hh : h < n) : δ.shift h < n + δ.extra := by
  rw [shift]
  split <;> omega

theorem shift_inj (δ : Difference) {h k : Nat} : δ.shift h = δ.shift k ↔ h = k := by
  rw [shift, shift]
  split <;> split <;> omega

theorem shift_of_ge (δ : Difference) {h : Nat} (hh : δ.shadows ≤ h) : δ.shift h = h + δ.extra :=
  if_neg (Nat.not_lt.2 hh)

end Difference

/-- An undo of the first store in the second one. -/
def Undo.shift (δ : Difference) : Undo → Undo
  | rebind r y former => .rebind r y former
  | unhide h inner => .unhide (δ.shift h) (inner.shift δ)

namespace Store

/-- A store without variables, calls and hidden parameters. -/
def bare (s : Store) : Store :=
  { s with roots := {}, calls := {}, shadows := {} }

/-- Whether two stores are alike but for a difference. -/
structure Alike (δ : Difference) (s t : Store) : Prop where
  bare : t.bare = s.bare
  sizeRoots : t.roots.size = s.roots.size
  root : ∀ r, { t.root r with vars := [] } = { s.root r with vars := [] }
  var : ∀ y r, y ≠ δ.name → t.var y r = s.var y r
  sizeCalls : t.calls.size = s.calls.size
  calls : δ.calls ≤ s.calls.size
  arg : ∀ y c, y ≠ δ.name ∨ δ.calls ≤ c.index → t.arg y c = s.arg y c
  block : ∀ c, (t.call c).block = (s.call c).block
  hidden : ∀ c, δ.calls ≤ c.index → (t.call c).hidden = (s.call c).hidden.map (·.shift δ)
  own : ∀ c, δ.calls ≤ c.index → ∀ u ∈ (s.call c).hidden, ∃ y, y ≠ δ.name ∧ u.Fits s y
  shadows : δ.shadows ≤ s.shadows.size
  sizeShadows : t.shadows.size = s.shadows.size + δ.extra
  shadow : ∀ h, h < s.shadows.size → (s.shadow h).param ≠ δ.name → t.shadow (δ.shift h) = s.shadow h

variable {δ : Difference} {s t s' t' : Store} {x y : String} {c : CallRef} {r : RootRef}

theorem Alike.call_lt (h : Alike δ s t) (hc : c.index < s.calls.size) : c.index < t.calls.size := by
  rw [h.sizeCalls]
  exact hc

/-- The undos of the calls that began since are of other names, and stay so while the store grows. -/
theorem Alike.own_mono (h : Alike δ s t) (hg : s.Grows s') (hc : δ.calls ≤ c.index) {u : Undo}
    (hu : u ∈ (s.call c).hidden) : ∃ y, y ≠ δ.name ∧ u.Fits s' y := by
  obtain ⟨y, hy, hf⟩ := h.own c hc u hu
  exact ⟨y, hy, hf.mono hg⟩

/-- What happens beside variables and calls. -/
theorem Alike.of_bare (h : Alike δ s t) (hs : s'.roots = s.roots ∧ s'.calls = s.calls ∧
      s'.shadows = s.shadows) (ht : t'.roots = t.roots ∧ t'.calls = t.calls ∧ t'.shadows = t.shadows)
    (hb : t'.bare = s'.bare) : Alike δ s' t' := by
  obtain ⟨hsr, hsc, hss⟩ := hs
  obtain ⟨htr, htc, hts⟩ := ht
  have hg : s.Grows s' := .of_eq hsr hsc hss
  refine ⟨hb, by rw [htr, hsr, h.sizeRoots], ?_, ?_, by rw [htc, hsc, h.sizeCalls],
    by rw [hsc]; exact h.calls, ?_, ?_, ?_, ?_, by rw [hss]; exact h.shadows,
    by rw [hts, hss, h.sizeShadows], ?_⟩
  · intro r
    rw [root_of_eq hsr, root_of_eq htr, h.root r]
  · intro y r hy
    rw [Store.var, Store.var, root_of_eq hsr, root_of_eq htr]
    exact h.var y r hy
  · intro y c hy
    rw [Store.arg, Store.arg, call_of_eq hsc, call_of_eq htc]
    exact h.arg y c hy
  · intro c
    rw [call_of_eq hsc, call_of_eq htc, h.block c]
  · intro c hc
    rw [call_of_eq hsc, call_of_eq htc, h.hidden c hc]
  · intro c hc u hu
    rw [call_of_eq hsc] at hu
    exact h.own_mono hg hc hu
  · intro k hk hp
    rw [hss] at hk
    rw [shadow_of_eq hss] at hp ⊢
    rw [shadow_of_eq hts, h.shadow k hk hp]

/-! ### The steps of assigning and taking back -/

theorem Alike.hide (h : Alike δ s t) (hc : c.index < s.calls.size) :
    Alike δ (s.hide c x) (t.hide c x) := by
  have hc' := h.call_lt hc
  have hg := grows_hide (s := s) (x := x) c
  refine ⟨h.bare, h.sizeRoots, h.root, h.var, by simp [h.sizeCalls], by simpa using h.calls, ?_, ?_, ?_,
    ?_, h.shadows, h.sizeShadows, h.shadow⟩
  · intro y d hy
    rw [arg_hide hc', arg_hide hc, h.arg y d hy]
  · intro d
    rw [block_hide, block_hide, h.block]
  · intro d hd
    rw [hidden_hide hc', hidden_hide hc, h.hidden d hd]
  · intro d hd u hu
    rw [hidden_hide hc] at hu
    exact h.own_mono hg hd hu

theorem Alike.remember (h : Alike δ s t) {p : Shadow} {inner : Undo} (hp : p.call.index < s.calls.size)
    (hx : p.param ≠ δ.name) (hi : inner.Fits s p.param) :
    Alike δ (s.remember p inner) (t.remember p (inner.shift δ)) := by
  have hp' := h.call_lt hp
  have hg := grows_remember (s := s) p inner
  have hsize : δ.shift s.shadows.size = t.shadows.size := by
    rw [δ.shift_of_ge h.shadows, h.sizeShadows]
  refine ⟨h.bare, h.sizeRoots, h.root, h.var, by simp [h.sizeCalls], by simpa using h.calls, ?_, ?_, ?_,
    ?_, ?_, ?_, ?_⟩
  · intro y d hy
    rw [arg_remember hp', arg_remember hp, h.arg y d hy]
  · intro d
    rw [block_remember, block_remember, h.block]
  · intro d hd
    rw [hidden_remember hp', hidden_remember hp, h.hidden d hd]
    split
    · rw [List.map_cons, Undo.shift, hsize]
    · rfl
  · intro d hd u hu
    have hold : u ∈ (s.call d).hidden → ∃ y, y ≠ δ.name ∧ u.Fits (s.remember p inner) y :=
      fun hu => h.own_mono hg hd hu
    rw [hidden_remember hp] at hu
    split at hu
    · rcases List.mem_cons.1 hu with rfl | hu
      · exact ⟨p.param, hx, by simp, by rw [shadow_remember_self], hi.mono hg⟩
      · exact hold hu
    · exact hold hu
  · rw [size_shadows_remember]
    exact Nat.le_succ_of_le h.shadows
  · rw [size_shadows_remember, size_shadows_remember, h.sizeShadows]
    omega
  · intro k hk hkx
    rw [size_shadows_remember] at hk
    rw [shadow_remember] at hkx
    rw [shadow_remember, shadow_remember, ← hsize]
    by_cases hks : k = s.shadows.size
    · rw [if_pos (by rw [hks]), if_pos hks]
    · rw [if_neg hks] at hkx
      rw [if_neg (fun he => hks (δ.shift_inj.1 he)), if_neg hks]
      exact h.shadow k (by omega) hkx

theorem Alike.finish (h : Alike δ s t) {k : Nat} (hk : k < s.shadows.size)
    (hx : (s.shadow k).param ≠ δ.name) : Alike δ (s.finish k) (t.finish (δ.shift k)) := by
  have hk' : δ.shift k < t.shadows.size := by
    rw [h.sizeShadows]
    exact δ.shift_lt hk
  have hg := grows_finish (s := s) k
  refine ⟨h.bare, h.sizeRoots, h.root, h.var, h.sizeCalls, h.calls, h.arg, h.block, h.hidden, ?_,
    by simpa using h.shadows, by simp [h.sizeShadows], ?_⟩
  · intro d hd u hu
    exact h.own_mono hg hd hu
  · intro j hj hjx
    rw [shadow_finish hk] at hjx
    rw [shadow_finish hk', shadow_finish hk, h.shadow k hk hx]
    simp only [δ.shift_inj]
    split
    · rfl
    · rename_i hne
      rw [if_neg hne] at hjx
      exact h.shadow j (by simpa using hj) hjx

theorem Alike.giveBack (h : Alike δ s t) {p : Shadow} (hp : p.call.index < s.calls.size) :
    Alike δ (s.giveBack p) (t.giveBack p) := by
  have hp' := h.call_lt hp
  have hg := grows_giveBack (s := s) p
  refine ⟨h.bare, h.sizeRoots, h.root, h.var, by simp [h.sizeCalls], by simpa using h.calls, ?_, ?_, ?_,
    ?_, h.shadows, h.sizeShadows, h.shadow⟩
  · intro y d hy
    rw [arg_giveBack hp', arg_giveBack hp, h.arg y d hy]
  · intro d
    rw [block_giveBack, block_giveBack, h.block]
  · intro d hd
    rw [hidden_giveBack hp', hidden_giveBack hp, h.hidden d hd]
  · intro d hd u hu
    rw [hidden_giveBack hp] at hu
    exact h.own_mono hg hd hu

/-- Changing one evaluation in the same way. -/
theorem Alike.setRoot (h : Alike δ s t) (hr : r.index < s.roots.size) {f g : RootFrame}
    (hfg : { g with vars := [] } = { f with vars := [] })
    (hv : ∀ y, y ≠ δ.name → g.vars.get? y = f.vars.get? y) :
    Alike δ (s.setRoot r f) (t.setRoot r g) := by
  have hr' : r.index < t.roots.size := by rw [h.sizeRoots]; exact hr
  refine ⟨h.bare, by simp [Store.setRoot, h.sizeRoots], ?_, ?_, h.sizeCalls, h.calls, h.arg, h.block,
    h.hidden, ?_, h.shadows, h.sizeShadows, h.shadow⟩
  · intro q
    rw [root_setRoot hr', root_setRoot hr]
    split
    · exact hfg
    · exact h.root q
  · intro y q hy
    rw [Store.var, Store.var, root_setRoot hr', root_setRoot hr]
    split
    · exact hv y hy
    · exact h.var y q hy
  · intro d hd u hu
    exact h.own_mono (grows_setRoot s r f) hd hu

/-! ### Assigning and taking back -/

/-- Assigning another name does the same in both stores. -/
theorem Alike.assignIn (h : Alike δ s t) (hr : r.index < s.roots.size) (hx : x ≠ δ.name) (v : Value)
    (calls : List CallRef) :
    (Store.assignIn r x v calls t).1 = (Store.assignIn r x v calls s).1.shift δ ∧
      Alike δ (Store.assignIn r x v calls s).2 (Store.assignIn r x v calls t).2 := by
  induction calls generalizing s t with
  | nil =>
    refine ⟨?_, h.setRoot hr (h.root r) fun y hy => ?_⟩
    · show Undo.rebind r x (t.var x r) = .rebind r x (s.var x r)
      rw [h.var x r hx]
    · have hv : (t.root r).vars.get? y = (s.root r).vars.get? y := h.var y r hy
      rw [Bindings.get?_put, Bindings.get?_put, hv]
  | cons c cs ih =>
    have harg : t.arg x c = s.arg x c := h.arg x c (.inl hx)
    cases hc : s.arg x c with
    | none =>
      rw [assignIn_cons_of_none hc, assignIn_cons_of_none (harg.trans hc)]
      exact ih h hr
    | some e =>
      have hlt : c.index < s.calls.size := lt_of_arg_eq_some hc
      obtain ⟨hu, hrest⟩ := ih (h.hide hlt (x := x)) hr
      have hf := (assigned_assignIn (s := s.hide c x) (x := x) (v := v) cs hr).2
      have hlt' : c.index < (Store.assignIn r x v cs (s.hide c x)).2.calls.size := by simpa using hlt
      -- Both stores hide the parameter, under numbers that differ by what the second has more.
      rw [assignIn_cons_of_some hc, assignIn_cons_of_some (harg.trans hc), hu]
      refine ⟨?_, hrest.remember (p := ⟨c, x, e, false⟩) hlt' hx hf⟩
      rw [Undo.shift, δ.shift_of_ge hrest.shadows, hrest.sizeShadows]

theorem Alike.assign (h : Alike δ s t) {scope : Scope} (hr : scope.root.index < s.roots.size)
    (hx : x ≠ δ.name) (v : Value) : (t.assign scope x v).1 = (s.assign scope x v).1.shift δ ∧
      Alike δ (s.assign scope x v).2 (t.assign scope x v).2 :=
  h.assignIn hr hx v scope.calls

/-- Taking back the assignment of another name does the same in both stores. -/
theorem Alike.undo (h : Alike δ s t) (hs : s.Sound) {u : Undo} (hu : u.Fits s x) (hx : x ≠ δ.name) :
    Alike δ (Store.undo u s) (Store.undo (u.shift δ) t) := by
  induction u generalizing s t with
  | rebind r y former =>
    obtain ⟨hr, rfl⟩ := hu
    have hv : ∀ z, z ≠ δ.name → (t.root r).vars.get? z = (s.root r).vars.get? z := fun z hz =>
      h.var z r hz
    cases former with
    | some v =>
      exact h.setRoot hr (h.root r) fun z hz => by rw [Bindings.get?_put, Bindings.get?_put, hv z hz]
    | none =>
      exact h.setRoot hr (h.root r) fun z hz => by
        rw [Bindings.get?_remove, Bindings.get?_remove, hv z hz]
  | unhide k inner ih =>
    obtain ⟨hk, hp, hi⟩ := hu
    have hpx : (s.shadow k).param ≠ δ.name := by rw [hp]; exact hx
    rw [Undo.shift, undo_unhide, undo_unhide, h.shadow k hk hpx]
    split
    · exact h
    · have hi' := hi.mono (grows_finish k)
      refine (ih (h.finish hk hpx) (hs.finish k) hi').giveBack ?_
      rw [((hs.finish k).undone_undo hi').calls]
      exact (hs.shadows k hk).1

/-! ### Calls -/

theorem Alike.forget (h : Alike δ s t) (hc : c.index < s.calls.size) :
    Alike δ (s.forget c) (t.forget c) := by
  have hc' := h.call_lt hc
  refine ⟨h.bare, h.sizeRoots, h.root, h.var, by simp [Store.forget, setCall, h.sizeCalls],
    by simpa [Store.forget, setCall] using h.calls, ?_, ?_, ?_, ?_, h.shadows, h.sizeShadows, h.shadow⟩
  · intro y d hy
    rw [arg_forget hc', arg_forget hc, h.arg y d hy]
  · intro d
    rw [Store.forget, Store.forget, block_setCall (by rfl), block_setCall (by rfl), h.block]
  · intro d hd
    rw [hidden_forget hc', hidden_forget hc, h.hidden d hd]
    split <;> rfl
  · intro d hd u hu
    rw [hidden_forget hc] at hu
    split at hu
    · cases hu
    · exact h.own_mono grows_forget hd hu

theorem Alike.undoAll (h : Alike δ s t) (hs : s.Sound) {us : List Undo}
    (hu : ∀ u ∈ us, ∃ y, y ≠ δ.name ∧ u.Fits s y) :
    Alike δ (Store.undoAll us s) (Store.undoAll (us.map (·.shift δ)) t) := by
  induction us generalizing s t with
  | nil => exact h
  | cons u us ih =>
    obtain ⟨y, hy, hf⟩ := hu u (List.mem_cons_self ..)
    have hun := hs.undone_undo hf
    refine ih (h.undo hs hf hy) (hun.sound hs) fun v hv => ?_
    obtain ⟨z, hz, hf'⟩ := hu v (List.mem_cons_of_mem _ hv)
    exact ⟨z, hz, hf'.mono hun.grows⟩

/-- The end of a call that began since the stores came to differ. -/
theorem Alike.restoreParams (h : Alike δ s t) (hs : s.Sound) (hc : c.index < s.calls.size)
    (hnew : δ.calls ≤ c.index) : Alike δ (s.restoreParams c) (t.restoreParams c) := by
  rw [restoreParams_eq, restoreParams_eq, h.hidden c hnew]
  exact (h.forget hc).undoAll (hs.forget hc) fun u hu => h.own_mono grows_forget hnew hu

theorem bare_beginCall (s : Store) (scope : Scope) (m : MacroDef) (args : List Expr)
    (body : Option (List Node)) :
    (s.beginCall scope m args body).2.bare = (s.bare.beginCall scope m args body).2.bare := by
  cases body <;> rfl

theorem Alike.beginCall (h : Alike δ s t) (scope : Scope) (m : MacroDef) (args : List Expr)
    (body : Option (List Node)) :
    (t.beginCall scope m args body).1 = (s.beginCall scope m args body).1 ∧
      Alike δ (s.beginCall scope m args body).2 (t.beginCall scope m args body).2 := by
  have hg := grows_beginCall s scope m args body
  have hnext : t.nextId = s.nextId := congrArg (·.nextId) h.bare
  have hcall : ∀ c, c.index ≠ s.calls.size →
      (s.beginCall scope m args body).2.call c = s.call c ∧
        (t.beginCall scope m args body).2.call c = t.call c := by
    intro c hc
    cases body <;>
      simp only [Store.beginCall, enterCall, call, Option.elim, addBlock, Heap.get_alloc, h.sizeCalls,
        if_neg hc, and_self]
  refine ⟨by rw [beginCall_fst, beginCall_fst, h.sizeCalls], ?_, ?_, ?_, ?_, ?_, ?_, ?_, ?_, ?_, ?_,
    ?_, ?_, ?_⟩
  · rw [bare_beginCall t, bare_beginCall s, h.bare]
  · rw [roots_beginCall, roots_beginCall, h.sizeRoots]
  · intro r
    rw [root_beginCall, root_beginCall]
    exact h.root r
  · intro y r hy
    rw [Store.var, Store.var, root_beginCall, root_beginCall]
    exact h.var y r hy
  · rw [size_calls_beginCall, size_calls_beginCall, h.sizeCalls]
  · rw [size_calls_beginCall]
    exact Nat.le_succ_of_le h.calls
  · intro y d hy
    rw [arg_beginCall, arg_beginCall, h.sizeCalls, h.arg y d hy]
  · intro d
    by_cases hd : d.index = s.calls.size
    · rw [block_new_call hd, block_new_call (hd.trans h.sizeCalls.symm), hnext]
    · rw [(hcall d hd).1, (hcall d hd).2, h.block]
  · intro d hd
    rw [(call_beginCall d).2, (call_beginCall d).2, h.sizeCalls, h.hidden d hd]
    split <;> rfl
  · intro d hd u hu
    rw [(call_beginCall d).2] at hu
    split at hu
    · cases hu
    · exact h.own_mono hg hd hu
  · rw [shadows_beginCall]
    exact h.shadows
  · rw [shadows_beginCall, shadows_beginCall, h.sizeShadows]
  · intro k hk hp
    rw [shadow_beginCall] at hp
    rw [shadows_beginCall] at hk
    rw [shadow_beginCall, shadow_beginCall]
    exact h.shadow k hk hp

/-! ### Other changes -/

theorem Alike.addMacros (h : Alike δ s t) (hr : r.index < s.roots.size) (ms : List MacroDef) :
    Alike δ (s.addMacros r ms) (t.addMacros r ms) := by
  refine h.setRoot hr ?_ fun y hy => h.var y r hy
  exact congrArg (fun f => { f with macros := ms.foldl addMacro f.macros }) (h.root r)

theorem Alike.midLoop (h : Alike δ s t) {scope : Scope} (hr : scope.root.index < s.roots.size)
    (hx : x ≠ δ.name) (source : Source) :
    Alike δ (s.midLoop scope x source) (t.midLoop scope x source) := by
  have ha := (h.assign hr hx .null).2
  refine ha.of_bare ⟨rfl, rfl, rfl⟩ ⟨rfl, rfl, rfl⟩ ?_
  exact congrArg (fun b : Store => { b with loops := b.loops.alloc ⟨source, none, -1⟩ }) ha.bare

/-! ### Where the difference begins -/

theorem bare_assignIn (s : Store) (r : RootRef) (x : String) (v : Value) (calls : List CallRef) :
    (Store.assignIn r x v calls s).2.bare = s.bare := by
  induction calls generalizing s with
  | nil => rfl
  | cons c cs ih =>
    cases hc : s.arg x c with
    | none => rw [assignIn_cons_of_none hc, ih]
    | some e =>
      rw [assignIn_cons_of_some hc]
      exact ih (s.hide c x)

/-- An assignment makes no difference but in its name. -/
theorem alike_assign (s : Store) (scope : Scope) (x : String) (v : Value)
    (hr : scope.root.index < s.roots.size) :
    Alike ⟨x, s.calls.size, s.shadows.size, (s.assign scope x v).2.shadows.size - s.shadows.size⟩ s
      (s.assign scope x v).2 := by
  have ha := assigned_assign scope x v hr
  have hle := ha.grows.shadows
  have hnew : ∀ {s : Store} {c : CallRef}, s.calls.size ≤ c.index → s.call c = default := fun hc => by
    simp [call, Heap.get, Array.getElem?_eq_none hc]
  have hnew' : ∀ {c : CallRef}, s.calls.size ≤ c.index → (s.assign scope x v).2.call c = default :=
    fun hc => hnew (by rw [ha.size]; exact hc)
  -- No call has begun since, so nothing has to be shown of the undos of those that did.
  refine ⟨bare_assignIn .., size_roots_assignIn .., (s.sameRoots_assign scope x v).fixed, ?_, ha.size,
    Nat.le_refl _, ?_, ha.block, ?_, ?_, Nat.le_refl _, ?_, ?_⟩
  · intro y r hy
    rw [var_assign _ _ _ _ hr, if_neg fun h => hy h.2]
  · intro y c hy
    rcases hy with hy | hc
    · rw [arg_assign, if_neg fun h => hy h.2]
    · rw [arg, hnew' hc, arg, hnew hc]
  · intro c hc
    rw [hnew' hc, hnew hc]
    rfl
  · intro c hc u hu
    rw [hnew hc] at hu
    cases hu
  · show (s.assign scope x v).2.shadows.size =
      s.shadows.size + ((s.assign scope x v).2.shadows.size - s.shadows.size)
    omega
  · intro k hk _
    rw [Difference.shift, if_pos hk]
    exact ha.same k hk

end Store

end Stencil
