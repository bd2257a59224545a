import Stencil.Proofs.Same

/-!
# Taking back an assignment

An assignment that is taken back at once, or at the end of the first call whose parameter it hid, has
changed nothing. Where the calls that matter have the parameter hidden already, an assignment changes no
more than the variable.
-/

namespace Stencil

namespace Store

variable {s s' : Store} {x : String} {v : Value} {c : CallRef} {r : RootRef} {calls : List CallRef}
  {scope : Scope}

theorem Sound.hide (hs : s.Sound) (hc : c.index < s.calls.size) : (s.hide c x).Sound := by
  refine hs.step (grows_hide c) ?_ ?_ ?_ (fun _ _ hk => .inl hk)
  · intro d y t ht
    rw [arg_hide hc] at ht
    split at ht
    · cases ht
    · exact .inl ht
  · intro k hge hlt
    exact absurd hlt (Nat.not_lt.2 hge)
  · intro d u hu
    rw [hidden_hide hc] at hu
    exact .inl hu

theorem Sound.assignIn (hs : s.Sound) (calls : List CallRef) (x : String) (v : Value)
    (hr : r.index < s.roots.size) : (assignIn r x v calls s).2.Sound :=
  hs.assign ⟨calls, r⟩ x v hr

theorem root_assignIn : (assignIn r x v calls s).1.root = r := by
  induction calls generalizing s with
  | nil => rfl
  | cons c cs ih =>
    cases h : s.arg x c with
    | none => rw [assignIn_cons_of_none h, ih]
    | some t =>
      rw [assignIn_cons_of_some h]
      exact ih

theorem root_assign : (s.assign scope x v).1.root = scope.root :=
  root_assignIn

/-! ### At once -/

/-- Remembering a parameter and marking it as given back comes to nothing. -/
theorem SameIn.finish_remember (hs : s.Sound) {p : Shadow} (inner : Undo)
    (hp : p.call.index < s.calls.size) :
    SameIn x scope s ((s.remember p inner).finish s.shadows.size) := by
  have hlt : s.shadows.size < (s.remember p inner).shadows.size := by simp
  have hold : ∀ k, k < s.shadows.size →
      ((s.remember p inner).finish s.shadows.size).shadow k = s.shadow k := by
    intro k hk
    rw [shadow_finish hlt, if_neg (Nat.ne_of_lt hk), shadow_remember_of_lt hk]
  refine ⟨⟨Nat.le_refl _, ?_, ?_, ?_, ?_, ?_, ?_⟩, rfl⟩
  · exact Nat.le_of_eq size_calls_remember.symm
  · simp
  · intro k hk
    rw [hold k hk]
  · intro k hk _
    exact hold k hk
  · intro d _
    exact arg_remember hp x d
  · intro d _
    have hlives := filter_isLive hs hold x d
    rw [lives]
    show (((s.remember p inner).call d).hidden.filter _) = _
    rw [hidden_remember hp]
    split
    · rw [List.filter_cons_of_neg, hlives]
      simp [isLive, shadow_finish hlt]
    · exact hlives

/-- Giving back a parameter that was hidden comes to nothing. -/
theorem SameIn.giveBack_hide {t : Thunk} (hc : s.arg x c = some t)
    (h : SameIn x scope (s.hide c x) s') : SameIn x scope s (s'.giveBack ⟨c, x, t, false⟩) := by
  have hlt : c.index < s.calls.size := lt_of_arg_eq_some hc
  have hle := h.sizeCalls
  rw [size_calls_hide] at hle
  have hlt' := Nat.lt_of_lt_of_le hlt hle
  refine ⟨⟨h.sizeRoots, ?_, h.sizeShadows, h.param, h.shadow, ?_, ?_⟩, h.var⟩
  · rw [size_calls_giveBack]
    exact hle
  · intro d hd
    rw [arg_giveBack hlt']
    by_cases hdc : d = c
    · rw [if_pos ⟨hdc, rfl⟩, hdc, hc]
    · rw [if_neg (by simp [hdc]), h.arg d hd, arg_hide hlt, if_neg (by simp [hdc])]
  · intro d hd
    rw [lives_giveBack hlt', h.lives d hd, lives, hidden_hide hlt]
    rfl

theorem SameIn.undo_assignRoot (hr : r.index < s.roots.size) :
    SameIn x scope s (Store.undo (s.assignRoot r x v).1 (s.assignRoot r x v).2) := by
  have hr' : r.index < (s.assignRoot r x v).2.roots.size := by
    simpa [assignRoot, setRoot] using hr
  have hvar : (s.assignRoot r x v).2.var x scope.root =
      if scope.root = r ∧ x = x then some v else s.var x scope.root := var_setRoot_put hr x scope.root
  have hback : (Store.undo (s.assignRoot r x v).1 (s.assignRoot r x v).2).var x scope.root =
      s.var x scope.root := by
    show (Store.undo (.rebind r x (s.var x r)) (s.assignRoot r x v).2).var x scope.root = _
    cases h : s.var x r with
    | none =>
      refine (var_setRoot_remove hr' x scope.root).trans ?_
      rw [hvar]
      grind
    | some w =>
      refine (var_setRoot_put hr' x scope.root).trans ?_
      rw [hvar]
      grind
  show SameIn x scope s (Store.undo (.rebind r x (s.var x r)) (s.assignRoot r x v).2)
  refine ⟨?_, hback⟩
  cases s.var x r <;>
    exact ⟨by simp [Store.undo, assignRoot, setRoot], Nat.le_refl _, Nat.le_refl _, fun _ _ => rfl,
      fun _ _ _ => rfl, fun _ _ => rfl, fun _ _ => rfl⟩

/-- An assignment that is taken back at once changes nothing. -/
theorem SameIn.undo_assignIn (hs : s.Sound) (hr : r.index < s.roots.size) :
    SameIn x scope s (Store.undo (assignIn r x v calls s).1 (assignIn r x v calls s).2) := by
  induction calls generalizing s with
  | nil => exact .undo_assignRoot hr
  | cons c cs ih =>
    cases h : s.arg x c with
    | none =>
      rw [assignIn_cons_of_none h]
      exact ih hs hr
    | some t =>
      have hc : c.index < s.calls.size := lt_of_arg_eq_some h
      have hin := ih (hs.hide (x := x) hc) hr
      have hfits := (assigned_assignIn (s := s.hide c x) (x := x) (v := v) cs hr).2
      have hsound := (hs.hide (x := x) hc).assignIn cs x v hr
      rw [assignIn_cons_of_some h]
      rw [undo_unhide, shadow_remember_self, if_neg (by simp)]
      refine .giveBack_hide h (hin.trans (SameIn.undo (.finish_remember hsound _ ?_) hsound hfits))
      simpa using hc

theorem SameIn.undo_assign (hs : s.Sound) {other : Scope} (hr : other.root.index < s.roots.size) :
    SameIn x scope s (Store.undo (s.assign other x v).1 (s.assign other x v).2) :=
  .undo_assignIn hs hr

/-- Right after an assignment its undo goes all the way to the variable. -/
theorem runs_assignIn (hs : s.Sound) (hr : r.index < s.roots.size) :
    (assignIn r x v calls s).1.Runs (assignIn r x v calls s).2 := by
  induction calls generalizing s with
  | nil => trivial
  | cons c cs ih =>
    cases h : s.arg x c with
    | none =>
      rw [assignIn_cons_of_none h]
      exact ih hs hr
    | some t =>
      have hc : c.index < s.calls.size := lt_of_arg_eq_some h
      have hin := ih (hs.hide (x := x) hc) hr
      have hfits := (assigned_assignIn (s := s.hide c x) (x := x) (v := v) cs hr).2
      have hsound := (hs.hide (x := x) hc).assignIn cs x v hr
      rw [assignIn_cons_of_some h]
      refine ⟨by rw [shadow_remember_self], ?_⟩
      have hsame : SameIn x ⟨[], r⟩ (assignIn r x v cs (s.hide c x)).2 _ :=
        .finish_remember hsound (p := ⟨c, x, t, false⟩) (assignIn r x v cs (s.hide c x)).1
          (by simpa using hc)
      exact hsame.runs hfits hin

/-! ### Where the parameter is hidden -/

/-- An assignment where the calls that matter have no parameter to hide changes no more than the
variable. -/
theorem SameArgs.assign_of_absent (hs : s.Sound) (hr : scope.root.index < s.roots.size)
    (h : ∀ c ∈ scope.calls, c ∈ calls → s.arg x c = none) :
    SameArgs x calls s (s.assign scope x v).2 := by
  have ha := assigned_assign scope x v hr
  refine ⟨ha.grows.roots, ha.grows.calls, ha.grows.shadows, ha.grows.param, fun k hk _ => ha.same k hk,
    ?_, ?_⟩
  · intro c hc
    rw [arg_assign]
    split
    · rename_i hmem
      rw [h c hmem.1 hc]
    · rfl
  · intro c hc
    obtain ⟨new, he, hnew⟩ := ha.hidden c
    have hnil : new = [] := by
      refine List.eq_nil_iff_forall_not_mem.2 fun u hu => ?_
      obtain ⟨k, inner, rfl, hge, hk, hmem, hf⟩ := hnew u hu
      obtain ⟨-, -, harg⟩ := ha.fresh k hge hf.1
      rw [hk, h c hmem hc] at harg
      cases harg
    rw [Store.lives, he, hnil, List.nil_append]
    exact filter_isLive hs ha.same x c

/-! ### At the end of a call -/

theorem forget_giveBack (s : Store) (c : CallRef) (p : Shadow) :
    (s.forget c).giveBack p = (s.giveBack p).forget c := by
  by_cases hc : p.call = c
  · subst hc
    rcases Nat.lt_or_ge p.call.index s.calls.size with hlt | hge
    · rw [giveBack, forget, setCall_setCall, call_setCall hlt, if_pos rfl, forget, giveBack,
        setCall_setCall, call_setCall hlt, if_pos rfl]
    · simp only [giveBack, forget, setCall_of_ge hge]
  · rw [giveBack, forget, call_setCall_of_ne hc, setCall_comm (Ne.symm hc), forget, giveBack,
      call_setCall_of_ne (Ne.symm hc)]

theorem undo_forget (u : Undo) (s : Store) (c : CallRef) :
    undo u (s.forget c) = (undo u s).forget c := by
  induction u generalizing s with
  | rebind r y former => cases former <;> rfl
  | unhide k inner ih =>
    have hk : (s.forget c).shadow k = s.shadow k := rfl
    have hf : (s.forget c).finish k = (s.finish k).forget c := rfl
    rw [undo_unhide, undo_unhide, hk]
    split
    · rfl
    · rw [hf, ih, forget_giveBack]

variable (scope) in
/-- A call that ends right after an assignment that hid its parameter first has changed nothing. -/
theorem assignIn_owner (hs : s.Sound) (hr : r.index < s.roots.size) {t : Thunk}
    (harg : s.arg x c = some t) (hl : s.lives x c = []) (hc : c ∉ calls) :
    (assignIn r x v (c :: calls) s).2.lives x c = [(assignIn r x v (c :: calls) s).1] ∧
      SameIn x scope s ((assignIn r x v (c :: calls) s).2.restoreParams c) := by
  have hlt : c.index < s.calls.size := lt_of_arg_eq_some harg
  have hsound := hs.assignIn (c :: calls) x v hr
  have hlt' : c.index < (assignIn r x v (c :: calls) s).2.calls.size := by
    rw [size_calls_assignIn]
    exact hlt
  have hlives : (assignIn r x v (c :: calls) s).2.lives x c = [(assignIn r x v (c :: calls) s).1] := by
    obtain ⟨ha, hf⟩ := assigned_assignIn (s := s.hide c x) (x := x) (v := v) calls hr
    obtain ⟨new, he, hnew⟩ := ha.hidden c
    have hnil : new = [] := by
      refine List.eq_nil_iff_forall_not_mem.2 fun u hu => ?_
      obtain ⟨k, inner, -, -, -, hmem, -⟩ := hnew u hu
      exact hc hmem
    have hsize : c.index < (assignIn r x v calls (s.hide c x)).2.calls.size := by
      simpa using hlt
    rw [assignIn_cons_of_some harg, lives, hidden_remember hsize, if_pos rfl, he, hnil, List.nil_append,
      hidden_hide hlt, List.filter_cons_of_pos]
    · refine congrArg _ ((filter_isLive hs (fun k hk => ?_) x c).trans hl)
      rw [shadow_remember_of_lt (Nat.lt_of_lt_of_le hk ha.grows.shadows), ha.same k hk]
      rfl
    · simp [isLive, shadow_remember]
  refine ⟨hlives, ?_⟩
  -- The end of the call is the undo of the assignment, with nothing left to be given back after it.
  have hback : ∀ other : Scope, SameIn x other s
      (undo (assignIn r x v (c :: calls) s).1 (assignIn r x v (c :: calls) s).2) :=
    fun _ => .undo_assignIn hs hr
  have hend : SameIn x scope _ ((assignIn r x v (c :: calls) s).2.restoreParams c) :=
    .undoAll_lives hsound hlt'
  rw [hlives] at hend
  change SameIn x scope (undo _ (Store.forget _ c)) _ at hend
  rw [undo_forget] at hend
  refine ((hback scope).trans (SameIn.forget_of_not_live ?_ ?_)).trans hend
  · exact Nat.lt_of_lt_of_le hlt (hback scope).sizeCalls
  · rw [(hback ⟨[c], r⟩).lives c (List.mem_singleton.2 rfl), hl]

/-! ### Calls that do not matter -/

theorem SameIn.hide (hc : c.index < s.calls.size) (hn : c ∉ scope.calls) :
    SameIn x scope s (s.hide c x) := by
  refine ⟨⟨Nat.le_refl _, Nat.le_of_eq size_calls_hide.symm, Nat.le_refl _, fun _ _ => rfl,
    fun _ _ _ => rfl, ?_, ?_⟩, rfl⟩
  · intro d hd
    rw [arg_hide hc, if_neg]
    rintro ⟨rfl, -⟩
    exact hn hd
  · intro d hd
    rw [Store.lives, hidden_hide hc]
    rfl

theorem SameIn.remember (hs : s.Sound) {p : Shadow} {inner : Undo} (hp : p.call.index < s.calls.size)
    (hn : p.call ∉ scope.calls) : SameIn x scope s (s.remember p inner) := by
  have hg := grows_remember (s := s) p inner
  refine ⟨⟨hg.roots, hg.calls, hg.shadows, hg.param, fun k hk _ => shadow_remember_of_lt hk,
    fun d _ => arg_remember hp x d, ?_⟩, rfl⟩
  intro d hd
  rw [Store.lives, hidden_remember hp, if_neg]
  · exact filter_isLive hs (fun k hk => shadow_remember_of_lt hk) x d
  · rintro rfl
    exact hn hd

/-- Of an assignment the calls that do not matter, or have no parameter to hide, can be left out. -/
theorem assignIn_append (hs : s.Sound) (hr : r.index < s.roots.size) (v : Value)
    {pre : List CallRef} (rest : List CallRef) (hpre : ∀ d ∈ pre, d ∈ scope.calls → s.arg x d = none) :
    ∃ s₁ : Store, s₁.Sound ∧ r.index < s₁.roots.size ∧ SameIn x scope s s₁ ∧
      SameIn x scope (assignIn r x v rest s₁).2 (assignIn r x v (pre ++ rest) s).2 := by
  induction pre generalizing s with
  | nil => exact ⟨s, hs, hr, .refl x scope s, .refl x scope _⟩
  | cons d pre ih =>
    have hpre' : ∀ e ∈ pre, e ∈ scope.calls → s.arg x e = none := fun e he =>
      hpre e (List.mem_cons_of_mem _ he)
    cases h : s.arg x d with
    | none =>
      rw [List.cons_append, assignIn_cons_of_none h]
      exact ih hs hr hpre'
    | some t =>
      have hlt : d.index < s.calls.size := lt_of_arg_eq_some h
      have hd : d ∉ scope.calls := fun hmem => by
        rw [hpre d (List.mem_cons_self ..) hmem] at h
        cases h
      -- The call hides its parameter before the rest is assigned, and remembers it after.
      obtain ⟨s₁, hs₁, hr₁, hsame, hrest⟩ := ih (hs.hide (x := x) hlt) hr fun e he hmem => by
        rw [arg_hide hlt, hpre' e he hmem, ite_self]
      rw [List.cons_append, assignIn_cons_of_some h]
      refine ⟨s₁, hs₁, hr₁, (SameIn.hide hlt hd).trans hsame, hrest.trans (.remember ?_ ?_ hd)⟩
      · exact (hs.hide (x := x) hlt).assignIn _ x v hr
      · simpa using hlt

/-- A call that ends right after an assignment has changed nothing, if its own parameter was the first
that the assignment hid among the calls that matter. -/
theorem assign_owner (hs : s.Sound) {other : Scope} (hv : other.Valid s) {pre post : List CallRef}
    (hcalls : other.calls = pre ++ c :: post) (hpre : ∀ d ∈ pre, d ∈ scope.calls → s.arg x d = none)
    (hc : c ∈ scope.calls) {t : Thunk} (harg : s.arg x c = some t) (hl : s.lives x c = []) :
    SameIn x scope s ((s.assign other x v).2.restoreParams c) ∧
      ∃ u, (s.assign other x v).2.lives x c = [u] ∧ u.Runs (s.assign other x v).2 ∧
        u.root = other.root := by
  obtain ⟨s₁, hs₁, hr₁, hsame, hrest⟩ := assignIn_append hs hv.root v (c :: post) hpre
  rw [← hcalls] at hrest
  have hnot : c ∉ post := by
    have hnodup := hv.nodup
    rw [hcalls, List.nodup_append] at hnodup
    exact (List.nodup_cons.1 hnodup.2.1).1
  have harg₁ : s₁.arg x c = some t := by rw [hsame.arg c hc, harg]
  obtain ⟨hlives, hback⟩ := assignIn_owner scope (v := v) hs₁ hr₁ harg₁
    (by rw [hsame.lives c hc, hl]) hnot
  have hsound := hs₁.assignIn (c :: post) x v hr₁
  have hlt : c.index < (assignIn other.root x v (c :: post) s₁).2.calls.size := by
    rw [size_calls_assignIn]
    exact lt_of_arg_eq_some harg₁
  refine ⟨(hsame.trans hback).trans ?_, _, by rw [assign, hrest.lives c hc, hlives], ?_, root_assignIn⟩
  · exact hrest.toSameArgs.restoreParams hsound (hs.assign other x v hv.root) hlt (hrest.lives c hc)
      (.inl hrest.var)
  · exact hrest.toSameArgs.runs (assigned_assignIn _ hr₁).2 (runs_assignIn hs₁ hr₁)

end Store

end Stencil
