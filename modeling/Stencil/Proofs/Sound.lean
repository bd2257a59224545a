import Stencil.Proofs.Assign

/-!
# Stores that hang together

In a sound store every scope that is kept anywhere exists, and what takes an assignment back is kept by
the call whose parameter the assignment hid. A store grows when nothing that exists goes away. Both are
kept by everything that evaluation does to variables and parameters; so is that each call has its
parameters still, or something in it that gives them back.
-/

namespace Stencil

/-- Whether the evaluation and the calls of a scope exist, and no call stands there twice. -/
structure Scope.Valid (scope : Scope) (s : Store) : Prop where
  root : scope.root.index < s.roots.size
  nodup : scope.calls.Nodup
  calls : ∀ c ∈ scope.calls, c.index < s.calls.size

/-- Whether everything that an undo takes back is of one name, and exists. -/
def Undo.Fits (s : Store) (x : String) : Undo → Prop
  | .rebind r y _ => r.index < s.roots.size ∧ y = x
  | .unhide h inner => h < s.shadows.size ∧ (s.shadow h).param = x ∧ inner.Fits s x

namespace Store

/-- Whether an undo of a call is still to give back a parameter. -/
def Live (s : Store) (x : String) (c : CallRef) (u : Undo) : Prop :=
  u ∈ (s.call c).hidden ∧
    ∃ h inner, u = .unhide h inner ∧ (s.shadow h).param = x ∧ (s.shadow h).done = false

/-- Whether all scopes that are kept exist, and each call keeps the undos of its own parameters. -/
structure Sound (s : Store) : Prop where
  params : ∀ c y t, s.arg y c = some t → t.scope.Valid s
  shadows : ∀ h, h < s.shadows.size →
    (s.shadow h).call.index < s.calls.size ∧ (s.shadow h).thunk.scope.Valid s
  hidden : ∀ c, ∀ u ∈ (s.call c).hidden,
    ∃ h inner, u = .unhide h inner ∧ (s.shadow h).call = c ∧ u.Fits s (s.shadow h).param
  blocks : ∀ (k : Nat) (b : Block), s.blocks[k]? = some b → b.scope.Valid s

/-- Whether nothing that exists in the first store has gone away or become another thing. -/
structure Grows (s s' : Store) : Prop where
  roots : s.roots.size ≤ s'.roots.size
  calls : s.calls.size ≤ s'.calls.size
  shadows : s.shadows.size ≤ s'.shadows.size
  block : ∀ c, c.index < s.calls.size → (s'.call c).block = (s.call c).block
  call : ∀ h, h < s.shadows.size → (s'.shadow h).call = (s.shadow h).call
  param : ∀ h, h < s.shadows.size → (s'.shadow h).param = (s.shadow h).param
  thunk : ∀ h, h < s.shadows.size → (s'.shadow h).thunk = (s.shadow h).thunk
  done : ∀ h, h < s.shadows.size → (s.shadow h).done = true → (s'.shadow h).done = true

/-- Whether each parameter of a call has its argument, or an undo of the call is still to give it back. -/
structure Keeps (s : Store) (c : CallRef) (params : Bindings Thunk) : Prop where
  args : ∀ y t, s.arg y c = some t → params.get? y = some t
  shadows : ∀ h, h < s.shadows.size → (s.shadow h).call = c →
    params.get? (s.shadow h).param = some (s.shadow h).thunk
  hidden : ∀ y t, params.get? y = some t → s.arg y c = none → ∃ u, s.Live y c u

variable {s s' s'' : Store}

theorem Grows.refl (s : Store) : s.Grows s :=
  ⟨Nat.le_refl _, Nat.le_refl _, Nat.le_refl _, fun _ _ => rfl, fun _ _ => rfl, fun _ _ => rfl,
    fun _ _ => rfl, fun _ _ h => h⟩

theorem Grows.trans (h : s.Grows s') (h' : s'.Grows s'') : s.Grows s'' := by
  refine ⟨Nat.le_trans h.roots h'.roots, Nat.le_trans h.calls h'.calls,
    Nat.le_trans h.shadows h'.shadows, ?_, ?_, ?_, ?_, ?_⟩
  · intro c hc
    rw [h'.block c (Nat.lt_of_lt_of_le hc h.calls), h.block c hc]
  · intro k hk
    rw [h'.call k (Nat.lt_of_lt_of_le hk h.shadows), h.call k hk]
  · intro k hk
    rw [h'.param k (Nat.lt_of_lt_of_le hk h.shadows), h.param k hk]
  · intro k hk
    rw [h'.thunk k (Nat.lt_of_lt_of_le hk h.shadows), h.thunk k hk]
  · intro k hk hd
    exact h'.done k (Nat.lt_of_lt_of_le hk h.shadows) (h.done k hk hd)

theorem Grows.of_shadows_eq (hr : s.roots.size ≤ s'.roots.size) (hc : s.calls.size ≤ s'.calls.size)
    (hs : s'.shadows = s.shadows)
    (hb : ∀ c, c.index < s.calls.size → (s'.call c).block = (s.call c).block) : s.Grows s' := by
  refine ⟨hr, hc, Nat.le_of_eq (congrArg _ hs.symm), hb, ?_, ?_, ?_, ?_⟩ <;> intro k _ <;>
    rw [shadow_of_eq hs]
  exact id

theorem Grows.of_eq (hr : s'.roots = s.roots) (hc : s'.calls = s.calls) (hs : s'.shadows = s.shadows) :
    s.Grows s' :=
  .of_shadows_eq (Nat.le_of_eq (congrArg _ hr.symm)) (Nat.le_of_eq (congrArg _ hc.symm)) hs
    fun c _ => by rw [call_of_eq hc]

theorem grows_setRoot (s : Store) (r : RootRef) (f : RootFrame) : s.Grows (s.setRoot r f) :=
  .of_shadows_eq (by simp [setRoot]) (Nat.le_refl _) rfl fun _ _ => rfl

end Store

open Store (Grows Sound)

variable {s s' : Store}

theorem Scope.Valid.mono {scope : Scope} (h : scope.Valid s) (hg : s.Grows s') : scope.Valid s' :=
  ⟨Nat.lt_of_lt_of_le h.root hg.roots, h.nodup,
    fun c hc => Nat.lt_of_lt_of_le (h.calls c hc) hg.calls⟩

theorem Undo.Fits.mono {x : String} {u : Undo} (h : u.Fits s x) (hg : s.Grows s') : u.Fits s' x := by
  induction u with
  | rebind r y former => exact ⟨Nat.lt_of_lt_of_le h.1 hg.roots, h.2⟩
  | unhide k inner ih =>
    obtain ⟨hk, hp, hi⟩ := h
    exact ⟨Nat.lt_of_lt_of_le hk hg.shadows, by rw [hg.param k hk, hp], ih hi⟩

namespace Store

/-- A store that has grown out of a sound one is sound when what is new in it is. -/
theorem Sound.step (hs : s.Sound) (hg : s.Grows s')
    (hp : ∀ c y t, s'.arg y c = some t → s.arg y c = some t ∨ t.scope.Valid s')
    (hh : ∀ h, s.shadows.size ≤ h → h < s'.shadows.size →
      (s'.shadow h).call.index < s'.calls.size ∧ (s'.shadow h).thunk.scope.Valid s')
    (hu : ∀ c, ∀ u ∈ (s'.call c).hidden, u ∈ (s.call c).hidden ∨
      ∃ h inner, u = .unhide h inner ∧ (s'.shadow h).call = c ∧ u.Fits s' (s'.shadow h).param)
    (hb : ∀ (k : Nat) (b : Block), s'.blocks[k]? = some b → s.blocks[k]? = some b ∨ b.scope.Valid s') :
    s'.Sound := by
  refine ⟨?_, ?_, ?_, ?_⟩
  · intro c y t ht
    rcases hp c y t ht with ht | ht
    · exact (hs.params c y t ht).mono hg
    · exact ht
  · intro h hlt
    rcases Nat.lt_or_ge h s.shadows.size with hold | hnew
    · obtain ⟨hc, hv⟩ := hs.shadows h hold
      rw [hg.call h hold, hg.thunk h hold]
      exact ⟨Nat.lt_of_lt_of_le hc hg.calls, hv.mono hg⟩
    · exact hh h hnew hlt
  · intro c u hmem
    rcases hu c u hmem with hmem | hmem
    · obtain ⟨h, inner, rfl, hc, hf⟩ := hs.hidden c u hmem
      refine ⟨h, inner, rfl, ?_, ?_⟩
      · rw [hg.call h hf.1, hc]
      · rw [hg.param h hf.1]
        exact hf.mono hg
    · exact hmem
  · intro k b hk
    rcases hb k b hk with hk | hk
    · exact (hs.blocks k b hk).mono hg
    · exact hk

end Store

end Stencil
