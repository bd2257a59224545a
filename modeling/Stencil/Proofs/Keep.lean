import Stencil.Proofs.After
import Stencil.Proofs.Hide

/-!
# What evaluation keeps

`Progress` is what holds between the store before and the store after anything that evaluation does: the
store is sound, nothing has gone away, and each call that was there has its parameters still. Here it is
shown of each change of variables and parameters.
-/

namespace Stencil

namespace Store

/-- What every step of evaluation keeps of a store. -/
structure Progress (s s' : Store) : Prop where
  sound : s'.Sound
  grows : s.Grows s'
  keeps : ∀ c params, c.index < s.calls.size → s.Keeps c params → s'.Keeps c params

variable {s s' s'' : Store} {x : String} {c : CallRef} {params : Bindings Thunk}

theorem Progress.refl (hs : s.Sound) : Progress s s :=
  ⟨hs, .refl s, fun _ _ _ h => h⟩

theorem Progress.trans (h : Progress s s') (h' : Progress s' s'') : Progress s s'' := by
  refine ⟨h'.sound, h.grows.trans h'.grows, fun c params hc hk => ?_⟩
  exact h'.keeps c params (Nat.lt_of_lt_of_le hc h.grows.calls) (h.keeps c params hc hk)

/-- Steps that leave variables and parameters alone keep everything. -/
theorem Progress.of_sameFrames {scope : Scope} (hs : s.Sound) (hv : scope.Valid s)
    (h : SameFrames scope s s') : Progress s s' := by
  have hcall := call_of_eq h.calls
  have hshadow := shadow_of_eq h.shadows
  have hg : s.Grows s' := .of_eq h.roots h.calls h.shadows
  refine ⟨hs.step hg ?_ ?_ ?_ ?_, hg, ?_⟩
  · intro c y t ht
    rw [arg, hcall] at ht
    exact .inl ht
  · intro k hge hlt
    rw [h.shadows] at hlt
    exact absurd hlt (Nat.not_lt.2 hge)
  · intro c u hu
    rw [hcall] at hu
    exact .inl hu
  · intro k b hk
    rcases h.blocks k b hk with hk | rfl
    · exact .inl hk
    · exact .inr (hv.mono hg)
  · intro c params _ hk
    refine ⟨?_, ?_, ?_⟩
    · intro y t ht
      rw [arg, hcall] at ht
      exact hk.args y t ht
    · intro k hlt
      rw [h.shadows] at hlt
      rw [hshadow]
      exact hk.shadows k hlt
    · intro y t ht hn
      rw [arg, hcall] at hn
      obtain ⟨u, hu, k, inner, rfl, hp, hd⟩ := hk.hidden y t ht hn
      exact ⟨_, by rwa [hcall], k, inner, rfl, by rwa [hshadow], by rwa [hshadow]⟩

/-! ### Assignments -/

theorem Sound.assign (hs : s.Sound) (scope : Scope) (x : String) (v : Value)
    (hr : scope.root.index < s.roots.size) : (s.assign scope x v).2.Sound := by
  have ha := assigned_assign scope x v hr
  refine hs.step ha.grows ?_ ?_ ?_ ?_
  · intro c y t ht
    rw [arg_assign] at ht
    split at ht
    · cases ht
    · exact .inl ht
  · intro h hge hlt
    obtain ⟨-, -, harg⟩ := ha.fresh h hge hlt
    exact ⟨Nat.lt_of_lt_of_le (lt_of_arg_eq_some harg) ha.grows.calls,
      (hs.params _ _ _ harg).mono ha.grows⟩
  · intro c u hu
    rcases ha.added hu with hu | ⟨h, inner, rfl, -, hc, -, hf⟩
    · exact .inl hu
    · refine .inr ⟨h, inner, rfl, hc, ?_⟩
      rw [hf.2.1]
      exact hf
  · intro k b hk
    rw [ha.blocks] at hk
    exact .inl hk

/-- An assignment that hides a parameter leaves its undo in the call. -/
theorem Keeps.assign (hk : s.Keeps c params) (hs : s.Sound) (scope : Scope) (x : String) (v : Value)
    (hr : scope.root.index < s.roots.size) : (s.assign scope x v).2.Keeps c params := by
  have ha := assigned_assign scope x v hr
  -- What was hidden before the assignment is hidden after it, and the same undo is there.
  have hold : ∀ {y t}, params.get? y = some t → s.arg y c = none →
      ∃ u, (s.assign scope x v).2.Live y c u := by
    intro y t ht hn
    obtain ⟨u, hu, h, inner, rfl, hp, hd⟩ := hk.hidden y t ht hn
    obtain ⟨k, i, he, -, hf⟩ := hs.hidden c _ hu
    cases he
    have hsame := ha.same h hf.1
    exact ⟨_, ha.kept hu, h, inner, rfl, by rw [hsame, hp], by rw [hsame, hd]⟩
  refine ⟨?_, ?_, ?_⟩
  · intro y t ht
    rw [arg_assign] at ht
    split at ht
    · cases ht
    · exact hk.args y t ht
  · intro h hlt hc
    rcases Nat.lt_or_ge h s.shadows.size with hold | hnew
    · rw [ha.same h hold] at hc ⊢
      exact hk.shadows h hold hc
    · obtain ⟨hp, -, harg⟩ := ha.fresh h hnew hlt
      rw [hc] at harg
      rw [hp]
      exact hk.args x _ harg
  · intro y t ht hn
    rw [arg_assign] at hn
    split at hn
    · rename_i hcx
      obtain ⟨hmem, rfl⟩ := hcx
      cases harg : s.arg y c with
      | none => exact hold ht harg
      | some t' =>
        obtain ⟨h, inner, -, hu, he⟩ := ha.live c hmem t' harg
        exact ⟨_, hu, h, inner, rfl, by rw [he], by rw [he]⟩
    · exact hold ht hn

theorem Progress.assign (hs : s.Sound) (scope : Scope) (x : String) (v : Value)
    (hr : scope.root.index < s.roots.size) : Progress s (s.assign scope x v).2 :=
  ⟨hs.assign scope x v hr, (assigned_assign scope x v hr).grows,
    fun _ _ _ hk => hk.assign hs scope x v hr⟩

/-! ### Taking back -/

theorem Undone.grows (h : Undone s s' x) : s.Grows s' := by
  refine ⟨Nat.le_of_eq h.roots.symm, Nat.le_of_eq h.calls.symm, Nat.le_of_eq h.shadows.symm,
    fun c _ => h.block c, ?_, ?_, ?_, ?_⟩ <;> intro k _ <;> obtain he | ⟨-, -, he⟩ := h.shadow k <;> rw [he]
  · exact id
  · exact fun _ => rfl

theorem Undone.sound (h : Undone s s' x) (hs : s.Sound) : s'.Sound := by
  refine hs.step h.grows ?_ ?_ ?_ ?_
  · intro c y t ht
    rcases h.arg y c with he | ⟨-, k, hk, -, -, -, -, he⟩
    · exact .inl (he ▸ ht)
    · rw [he] at ht
      cases ht
      exact .inr ((hs.shadows k hk).2.mono h.grows)
  · intro k hge hlt
    rw [h.shadows] at hlt
    exact absurd hlt (Nat.not_lt.2 hge)
  · intro c u hu
    rw [h.hidden] at hu
    exact .inl hu
  · intro k b hk
    rw [h.blocks] at hk
    exact .inl hk

/-- Where an assignment was taken back that hid a parameter, the parameter has its argument again. -/
theorem Undone.keeps (h : Undone s s' x) (hs : s.Sound) (hk : s.Keeps c params) :
    s'.Keeps c params := by
  refine ⟨?_, ?_, ?_⟩
  · intro y t ht
    rcases h.arg y c with he | ⟨rfl, k, hlt, hc, hp, -, -, he⟩
    · exact hk.args y t (he ▸ ht)
    · rw [he] at ht
      cases ht
      have := hk.shadows k hlt hc
      rwa [hp] at this
  · intro k hlt hc
    rw [h.shadows] at hlt
    rw [h.grows.call k hlt] at hc
    rw [h.grows.param k hlt, h.grows.thunk k hlt]
    exact hk.shadows k hlt hc
  · intro y t ht hn
    obtain ⟨u, hu, k, inner, rfl, hp, hd⟩ := hk.hidden y t ht (h.absent hn)
    obtain ⟨k', i, he, hc, -⟩ := hs.hidden c _ hu
    cases he
    refine ⟨_, by rwa [h.hidden], k, inner, rfl, ?_, h.pending hd (by rwa [hp, hc])⟩
    rcases h.shadow k with he | ⟨-, -, he⟩ <;> rw [he, hp]

theorem Undone.progress (h : Undone s s' x) (hs : s.Sound) : Progress s s' :=
  ⟨h.sound hs, h.grows, fun _ _ _ hk => h.keeps hs hk⟩

theorem Sound.finish (hs : s.Sound) (h : Nat) : (s.finish h).Sound := by
  refine hs.step (grows_finish h) (fun _ _ _ ht => .inl ht) ?_ (fun _ _ hu => .inl hu)
    (fun _ _ hk => .inl hk)
  intro k hge hlt
  exact absurd (by simpa using hlt) (Nat.not_lt.2 hge)

theorem Sound.undone_undo (hs : s.Sound) {u : Undo} (hu : u.Fits s x) : Undone s (undo u s) x :=
  Store.undone_undo hu fun h hh => (hs.shadows h hh).1

theorem Progress.undo (hs : s.Sound) {u : Undo} (hu : u.Fits s x) : Progress s (undo u s) :=
  (hs.undone_undo hu).progress hs

end Store

end Stencil
