import Stencil.Proofs.Sound

/-!
# What assigning and taking back do to parameters

`Assigned` says what an assignment does to the calls on its way and to the parameters that it hides, and
`Undone` what taking it back does. From them follows that both keep a store sound, and each call its
parameters.
-/

namespace Stencil

namespace Store

/-- What an assignment does to the parameters of the calls that it passes. -/
structure Assigned (s s' : Store) (x : String) (calls : List CallRef) : Prop where
  grows : s.Grows s'
  size : s'.calls.size = s.calls.size
  blocks : s'.blocks = s.blocks
  same : ∀ h, h < s.shadows.size → s'.shadow h = s.shadow h
  fresh : ∀ h, s.shadows.size ≤ h → h < s'.shadows.size →
    (s'.shadow h).param = x ∧ (s'.shadow h).done = false ∧
      s.arg x (s'.shadow h).call = some (s'.shadow h).thunk
  block : ∀ c, (s'.call c).block = (s.call c).block
  hidden : ∀ c, ∃ new, (s'.call c).hidden = new ++ (s.call c).hidden ∧ ∀ u ∈ new,
    ∃ h inner, u = .unhide h inner ∧ s.shadows.size ≤ h ∧ (s'.shadow h).call = c ∧ c ∈ calls ∧
      u.Fits s' x
  live : ∀ c ∈ calls, ∀ t, s.arg x c = some t → ∃ h inner, h < s'.shadows.size ∧
    .unhide h inner ∈ (s'.call c).hidden ∧ s'.shadow h = ⟨c, x, t, false⟩

variable {s s' : Store} {x : String} {v : Value} {root : RootRef}

theorem Assigned.kept {calls : List CallRef} (h : Assigned s s' x calls) {c : CallRef} {u : Undo}
    (hu : u ∈ (s.call c).hidden) : u ∈ (s'.call c).hidden := by
  obtain ⟨new, he, -⟩ := h.hidden c
  rw [he]
  exact List.mem_append_right _ hu

theorem Assigned.added {calls : List CallRef} (h : Assigned s s' x calls) {c : CallRef} {u : Undo}
    (hu : u ∈ (s'.call c).hidden) : u ∈ (s.call c).hidden ∨
      ∃ h inner, u = .unhide h inner ∧ s.shadows.size ≤ h ∧ (s'.shadow h).call = c ∧ c ∈ calls ∧
        u.Fits s' x := by
  obtain ⟨new, he, hnew⟩ := h.hidden c
  rw [he] at hu
  rcases List.mem_append.1 hu with hu | hu
  · exact .inr (hnew u hu)
  · exact .inl hu

theorem Assigned.cons {c : CallRef} {cs : List CallRef} (h : Assigned s s' x cs)
    (hc : s.arg x c = none) : Assigned s s' x (c :: cs) := by
  refine ⟨h.grows, h.size, h.blocks, h.same, h.fresh, h.block, ?_, ?_⟩
  · intro d
    obtain ⟨new, he, hnew⟩ := h.hidden d
    refine ⟨new, he, fun u hu => ?_⟩
    obtain ⟨k, inner, hk, hs, hd, hm, hf⟩ := hnew u hu
    exact ⟨k, inner, hk, hs, hd, List.mem_cons_of_mem _ hm, hf⟩
  · intro d hd t ht
    rcases List.mem_cons.1 hd with rfl | hd
    · rw [hc] at ht
      cases ht
    · exact h.live d hd t ht

theorem grows_hide (c : CallRef) : s.Grows (s.hide c x) :=
  .of_shadows_eq (Nat.le_refl _) (Nat.le_of_eq size_calls_hide.symm) rfl fun d _ =>
    block_hide d

theorem grows_remember (p : Shadow) (inner : Undo) : s.Grows (s.remember p inner) := by
  refine ⟨Nat.le_refl _, Nat.le_of_eq size_calls_remember.symm, by simp, fun d _ => block_remember d,
    ?_, ?_, ?_, ?_⟩ <;>
    intro h hh <;> rw [shadow_remember_of_lt hh]
  exact id

/-- What hiding one more parameter adds to an assignment in the calls further out. -/
theorem Assigned.remember {c : CallRef} {cs : List CallRef} {t : Thunk} {inner : Undo}
    (h : Assigned (s.hide c x) s' x cs) (hc : s.arg x c = some t) (hi : inner.Fits s' x) :
    Assigned s (s'.remember ⟨c, x, t, false⟩ inner) x (c :: cs) := by
  -- The calls further out come first: `s'` is what they made of the store with this parameter hidden.
  have hlt : c.index < s.calls.size := lt_of_arg_eq_some hc
  have hlt' : c.index < s'.calls.size := by rw [h.size]; simpa using hlt
  have hle : s.shadows.size ≤ s'.shadows.size := h.grows.shadows
  have hg : s'.Grows (s'.remember ⟨c, x, t, false⟩ inner) := grows_remember _ _
  have harg : ∀ {d t'}, (s.hide c x).arg x d = some t' → s.arg x d = some t' := by
    intro d t' hd
    rw [arg_hide hlt] at hd
    split at hd
    · cases hd
    · exact hd
  refine ⟨(grows_hide c).trans (h.grows.trans hg), ?_, ?_, ?_, ?_, ?_, ?_, ?_⟩
  · rw [size_calls_remember, h.size, size_calls_hide]
  · exact h.blocks
  · intro k hk
    rw [shadow_remember_of_lt (Nat.lt_of_lt_of_le hk hle)]
    exact h.same k hk
  · intro k hk hk'
    rcases Nat.lt_or_ge k s'.shadows.size with hlt | hge
    · rw [shadow_remember_of_lt hlt]
      obtain ⟨hp, hd, ha⟩ := h.fresh k hk hlt
      exact ⟨hp, hd, harg ha⟩
    · rw [size_shadows_remember] at hk'
      obtain rfl : k = s'.shadows.size := by omega
      rw [shadow_remember_self]
      exact ⟨rfl, rfl, hc⟩
  · intro d
    rw [block_remember, h.block, block_hide]
  · intro d
    obtain ⟨new, he, hnew⟩ := h.hidden d
    have hnew' : ∀ u ∈ new, ∃ k i, u = .unhide k i ∧ s.shadows.size ≤ k ∧
        ((s'.remember ⟨c, x, t, false⟩ inner).shadow k).call = d ∧ d ∈ c :: cs ∧
          u.Fits (s'.remember ⟨c, x, t, false⟩ inner) x := by
      intro u hu
      obtain ⟨k, i, rfl, hk, hd, hm, hf⟩ := hnew u hu
      refine ⟨k, i, rfl, hk, ?_, List.mem_cons_of_mem _ hm, hf.mono hg⟩
      rw [shadow_remember_of_lt hf.1, hd]
    rw [hidden_remember hlt', he, hidden_hide hlt]
    split
    · rename_i hd
      refine ⟨.unhide s'.shadows.size inner :: new, rfl, fun u hu => ?_⟩
      rcases List.mem_cons.1 hu with rfl | hu
      · refine ⟨_, _, rfl, hle, ?_, ?_, ?_⟩
        · rw [shadow_remember_self, hd]
        · rw [hd]
          exact List.mem_cons_self ..
        · exact ⟨by simp, by rw [shadow_remember_self], hi.mono hg⟩
      · exact hnew' u hu
    · exact ⟨new, rfl, hnew'⟩
  · intro d hd t' ht'
    by_cases hdc : d = c
    · subst hdc
      refine ⟨s'.shadows.size, inner, by simp, ?_, ?_⟩
      · rw [hidden_remember hlt', if_pos rfl]
        exact List.mem_cons_self ..
      · rw [shadow_remember_self]
        rw [hc] at ht'
        cases ht'
        rfl
    · have hd : d ∈ cs := (List.mem_cons.1 hd).resolve_left hdc
      have ha : (s.hide c x).arg x d = some t' := by rw [arg_hide hlt, if_neg (by simp [hdc]), ht']
      obtain ⟨k, i, hk, hm, hs⟩ := h.live d hd t' ha
      refine ⟨k, i, by simp; omega, ?_, ?_⟩
      · rw [hidden_remember hlt', if_neg hdc]
        exact hm
      · rw [shadow_remember_of_lt hk, hs]

theorem assigned_assignRoot :
    Assigned s (s.assignRoot root x v).2 x [] := by
  refine ⟨grows_setRoot .., rfl, rfl, fun _ _ => rfl, ?_, fun _ => rfl, fun _ => ⟨[], rfl, fun _ hu => nomatch hu⟩, ?_⟩
  · intro h hge hlt
    exact absurd hlt (Nat.not_lt.2 hge)
  · intro c hc
    cases hc

/-- What an assignment does, and that its undo takes back nothing else. -/
theorem assigned_assignIn (calls : List CallRef) (hr : root.index < s.roots.size) :
    Assigned s (assignIn root x v calls s).2 x calls ∧
      (assignIn root x v calls s).1.Fits (assignIn root x v calls s).2 x := by
  induction calls generalizing s with
  | nil => exact ⟨assigned_assignRoot, by simpa [assignIn_nil, assignRoot, setRoot] using hr, rfl⟩
  | cons c cs ih =>
    cases h : s.arg x c with
    | none =>
      rw [assignIn_cons_of_none h]
      exact ⟨(ih hr).1.cons h, (ih hr).2⟩
    | some t =>
      obtain ⟨ha, hf⟩ := ih (s := s.hide c x) hr
      rw [assignIn_cons_of_some h]
      exact ⟨ha.remember h hf, by simp, by rw [shadow_remember_self], hf.mono (grows_remember _ _)⟩

theorem assigned_assign (scope : Scope) (x : String) (v : Value)
    (hr : scope.root.index < s.roots.size) :
    Assigned s (s.assign scope x v).2 x scope.calls :=
  (assigned_assignIn scope.calls hr).1

theorem fits_assign (scope : Scope) (x : String) (v : Value) (hr : scope.root.index < s.roots.size) :
    (s.assign scope x v).1.Fits (s.assign scope x v).2 x :=
  (assigned_assignIn scope.calls hr).2

/-- What taking back an assignment of a name does: it gives back parameters of that name, which is done
once for each, and changes variables of that name. -/
structure Undone (s s' : Store) (x : String) : Prop where
  roots : s'.roots.size = s.roots.size
  calls : s'.calls.size = s.calls.size
  shadows : s'.shadows.size = s.shadows.size
  blocks : s'.blocks = s.blocks
  block : ∀ c, (s'.call c).block = (s.call c).block
  hidden : ∀ c, (s'.call c).hidden = (s.call c).hidden
  shadow : ∀ h, s'.shadow h = s.shadow h ∨
    h < s.shadows.size ∧ (s.shadow h).param = x ∧ s'.shadow h = { s.shadow h with done := true }
  arg : ∀ y c, s'.arg y c = s.arg y c ∨ y = x ∧ ∃ h, h < s.shadows.size ∧ (s.shadow h).call = c ∧
    (s.shadow h).param = x ∧ (s.shadow h).done = false ∧ (s'.shadow h).done = true ∧
      s'.arg y c = some (s.shadow h).thunk
  given : ∀ h, (s.shadow h).done = false → (s'.shadow h).done = true →
    s'.arg x (s.shadow h).call ≠ none
  var : ∀ y r, y ≠ x → s'.var y r = s.var y r

theorem Undone.refl (s : Store) (x : String) : Undone s s x := by
  refine ⟨rfl, rfl, rfl, rfl, fun _ => rfl, fun _ => rfl, fun _ => .inl rfl, fun _ _ => .inl rfl, ?_,
    fun _ _ _ => rfl⟩
  intro h hf ht
  rw [hf] at ht
  cases ht

/-- A parameter that is missing afterwards was missing before. -/
theorem Undone.absent (h : Undone s s' x) {y : String} {c : CallRef} (hn : s'.arg y c = none) :
    s.arg y c = none := by
  rcases h.arg y c with he | ⟨-, k, -, -, -, -, -, he⟩
  · rw [← he, hn]
  · rw [he] at hn
    cases hn

/-- A parameter that is missing afterwards is still to be given back. -/
theorem Undone.pending (h : Undone s s' x) {k : Nat} (hd : (s.shadow k).done = false)
    (hn : s'.arg (s.shadow k).param (s.shadow k).call = none) : (s'.shadow k).done = false := by
  cases hdone : (s'.shadow k).done with
  | false => rfl
  | true =>
    rcases h.shadow k with he | ⟨-, hp, -⟩
    · rw [he, hd] at hdone
      cases hdone
    · rw [hp] at hn
      exact absurd hn (h.given k hd hdone)

theorem grows_finish (h : Nat) : s.Grows (s.finish h) := by
  rcases Nat.lt_or_ge h s.shadows.size with hh | hh
  · refine ⟨Nat.le_refl _, Nat.le_refl _, by simp, fun _ _ => rfl, ?_, ?_, ?_, ?_⟩ <;> intro k _ <;>
      rw [shadow_finish hh] <;> split
    · simp [*]
    · rfl
    · simp [*]
    · rfl
    · simp [*]
    · rfl
    · simp
    · exact id
  · have hs : s.finish h = s := by
      simp only [finish, Heap.set_of_ge _ hh]
    rw [hs]
    exact .refl s

theorem grows_giveBack (p : Shadow) : s.Grows (s.giveBack p) :=
  .of_shadows_eq (Nat.le_refl _) (Nat.le_of_eq size_calls_giveBack.symm) rfl fun d _ => block_giveBack d

theorem Undone.giveBack {h : Nat} (hh : h < s.shadows.size) (hp : (s.shadow h).param = x)
    (hd : (s.shadow h).done = false) (hc : (s.shadow h).call.index < s.calls.size)
    (hu : Undone (s.finish h) s' x) : Undone s (s'.giveBack (s.shadow h)) x := by
  have hc' : (s.shadow h).call.index < s'.calls.size := by rw [hu.calls]; exact hc
  have hfin := shadow_finish hh
  -- What is taken back inside may change other calls, but not this parameter: it is marked already.
  have hdone : (s'.shadow h).done = true := by
    rcases hu.shadow h with he | ⟨-, -, he⟩ <;> rw [he, hfin h, if_pos rfl]
  refine ⟨hu.roots, ?_, ?_, hu.blocks, ?_, ?_, ?_, ?_, ?_, hu.var⟩
  · rw [size_calls_giveBack, hu.calls]
    rfl
  · exact hu.shadows.trans size_shadows_finish
  · intro c
    rw [block_giveBack, hu.block]
    rfl
  · intro c
    rw [hidden_giveBack hc', hu.hidden]
    rfl
  · intro k
    show s'.shadow k = _ ∨ _ ∧ _ ∧ s'.shadow k = _
    by_cases hk : k = h
    · subst hk
      refine .inr ⟨hh, hp, ?_⟩
      rcases hu.shadow k with he | ⟨-, -, he⟩ <;> rw [he, hfin k, if_pos rfl]
    · have hk' : (s.finish h).shadow k = s.shadow k := by rw [hfin k, if_neg hk]
      rcases hu.shadow k with he | ⟨hlt, hq, he⟩
      · exact .inl (he.trans hk')
      · rw [hk'] at hq he
        exact .inr ⟨by simpa using hlt, hq, he⟩
  · intro y c
    rw [arg_giveBack hc']
    by_cases hyc : c = (s.shadow h).call ∧ y = (s.shadow h).param
    · rw [if_pos hyc]
      exact .inr ⟨hyc.2.trans hp, h, hh, hyc.1.symm, hp, hd, hdone, rfl⟩
    · rw [if_neg hyc]
      rcases hu.arg y c with he | ⟨hy, k, hk, hkc, hkp, hkf, hkd, he⟩
      · exact .inl he
      · have hne : k ≠ h := by
          rintro rfl
          rw [hfin k, if_pos rfl] at hkf
          cases hkf
        have hk' : (s.finish h).shadow k = s.shadow k := by rw [hfin k, if_neg hne]
        rw [hk'] at hkc hkp hkf he
        exact .inr ⟨hy, k, by simpa using hk, hkc, hkp, hkf, hkd, he⟩
  · intro k hkf hkd
    rw [arg_giveBack hc']
    split
    · simp
    · rename_i hyc
      have hne : k ≠ h := by
        rintro rfl
        exact hyc ⟨rfl, hp.symm⟩
      have hk' : (s.finish h).shadow k = s.shadow k := by rw [hfin k, if_neg hne]
      have := hu.given k (by rw [hk', hkf]) hkd
      rwa [hk'] at this

/-- What taking back an assignment does. -/
theorem undone_undo {u : Undo} (hu : u.Fits s x)
    (hs : ∀ h, h < s.shadows.size → (s.shadow h).call.index < s.calls.size) :
    Undone s (undo u s) x := by
  induction u generalizing s with
  | rebind r y former =>
    obtain ⟨hr, rfl⟩ := hu
    cases former with
    | some v =>
      refine ⟨by simp [undo, setRoot], rfl, rfl, rfl, fun _ => rfl, fun _ => rfl, fun _ => .inl rfl,
        fun _ _ => .inl rfl, (Undone.refl s y).given, ?_⟩
      intro z q hz
      exact (var_setRoot_put hr z q).trans (if_neg (by simp [hz]))
    | none =>
      refine ⟨by simp [undo, setRoot], rfl, rfl, rfl, fun _ => rfl, fun _ => rfl, fun _ => .inl rfl,
        fun _ _ => .inl rfl, (Undone.refl s y).given, ?_⟩
      intro z q hz
      exact (var_setRoot_remove hr z q).trans (if_neg (by simp [hz]))
  | unhide h inner ih =>
    obtain ⟨hh, hp, hi⟩ := hu
    rw [undo_unhide]
    split
    -- It was carried out before, on its own or inside another undo.
    · exact .refl s x
    · rename_i hd
      refine Undone.giveBack hh hp (by simpa using hd) (hs h hh) (ih (hi.mono (grows_finish h)) ?_)
      intro k hk
      have hk' : k < s.shadows.size := by simpa using hk
      rw [(grows_finish h).call k hk']
      exact hs k hk'

end Store

end Stencil
