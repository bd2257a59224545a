import Stencil.Proofs.Progress

/-!
# Stores that agree on a name

Two stores agree on a name in a scope when the name has the same arguments and the same variable there,
and the same undos are still to give arguments of it back. Such stores are as good as each other for
everything that gives the name back: after the same undos, and after the end of the same call, they agree
still.
-/

namespace Stencil

namespace Undo

/-- Whether an undo begins with a certain parameter. -/
def unhides (k : Nat) : Undo → Bool
  | rebind .. => false
  | unhide h _ => h == k

/-- The evaluation whose variable an undo changes. -/
def root : Undo → RootRef
  | rebind r _ _ => r
  | unhide _ inner => inner.root

/-- Whether nothing of an undo is done yet, so that carrying it out goes all the way to the variable. -/
def Runs (s : Store) : Undo → Prop
  | rebind .. => True
  | unhide h inner => (s.shadow h).done = false ∧ inner.Runs (s.finish h)

end Undo

namespace Store

/-- Whether an undo is still to give back a parameter of a name. -/
def isLive (s : Store) (x : String) : Undo → Bool
  | .rebind .. => false
  | .unhide h _ => (s.shadow h).param = x && !(s.shadow h).done

/-- The undos of a call that are still to give back a parameter of a name, the latest first. -/
def lives (s : Store) (x : String) (c : CallRef) : List Undo :=
  (s.call c).hidden.filter (s.isLive x)

theorem isLive_of_shadows {s s' : Store} (h : s'.shadows = s.shadows) (x : String) :
    s'.isLive x = s.isLive x := by
  funext u
  cases u with
  | rebind => rfl
  | unhide k inner => simp only [isLive, shadow_of_eq h]

/-- Parameters that are hidden later do not matter for the undos that a call has. -/
theorem filter_isLive {s s' : Store} (hs : s.Sound)
    (h : ∀ k, k < s.shadows.size → s'.shadow k = s.shadow k) (x : String) (c : CallRef) :
    (s.call c).hidden.filter (s'.isLive x) = s.lives x c := by
  refine List.filter_congr fun u hu => ?_
  obtain ⟨k, inner, rfl, -, hf⟩ := hs.hidden c u hu
  simp only [isLive, h k hf.1]

/-- Whether a name has the same arguments in some calls, now and when they are given back. -/
structure SameArgs (x : String) (calls : List CallRef) (s s' : Store) : Prop where
  sizeRoots : s.roots.size ≤ s'.roots.size
  sizeCalls : s.calls.size ≤ s'.calls.size
  sizeShadows : s.shadows.size ≤ s'.shadows.size
  param : ∀ h, h < s.shadows.size → (s'.shadow h).param = (s.shadow h).param
  shadow : ∀ h, h < s.shadows.size → (s.shadow h).param = x → s'.shadow h = s.shadow h
  arg : ∀ c ∈ calls, s'.arg x c = s.arg x c
  lives : ∀ c ∈ calls, s'.lives x c = s.lives x c

/-- Whether a name is the same in a scope, now and when it is given back. -/
structure SameIn (x : String) (scope : Scope) (s s' : Store) : Prop extends
    SameArgs x scope.calls s s' where
  var : s'.var x scope.root = s.var x scope.root

variable {s s' s'' : Store} {x y : String} {calls : List CallRef} {scope : Scope}

namespace SameArgs

theorem refl (x : String) (calls : List CallRef) (s : Store) : SameArgs x calls s s :=
  ⟨Nat.le_refl _, Nat.le_refl _, Nat.le_refl _, fun _ _ => rfl, fun _ _ _ => rfl, fun _ _ => rfl,
    fun _ _ => rfl⟩

theorem trans (h : SameArgs x calls s s') (h' : SameArgs x calls s' s'') :
    SameArgs x calls s s'' := by
  refine ⟨Nat.le_trans h.sizeRoots h'.sizeRoots, Nat.le_trans h.sizeCalls h'.sizeCalls,
    Nat.le_trans h.sizeShadows h'.sizeShadows, ?_, ?_, ?_, ?_⟩
  · intro k hk
    rw [h'.param k (Nat.lt_of_lt_of_le hk h.sizeShadows), h.param k hk]
  · intro k hk hx
    rw [h'.shadow k (Nat.lt_of_lt_of_le hk h.sizeShadows) (by rw [h.param k hk, hx]), h.shadow k hk hx]
  · intro c hc
    rw [h'.arg c hc, h.arg c hc]
  · intro c hc
    rw [h'.lives c hc, h.lives c hc]

theorem symm (h : SameArgs x calls s s') (hr : s'.roots.size = s.roots.size)
    (hc : s'.calls.size = s.calls.size) (hs : s'.shadows.size = s.shadows.size) :
    SameArgs x calls s' s := by
  refine ⟨Nat.le_of_eq hr, Nat.le_of_eq hc, Nat.le_of_eq hs, ?_, ?_, ?_, ?_⟩
  · intro k hk
    rw [h.param k (hs ▸ hk)]
  · intro k hk hx
    rw [h.param k (hs ▸ hk)] at hx
    rw [h.shadow k (hs ▸ hk) hx]
  · intro c hc
    rw [h.arg c hc]
  · intro c hc
    rw [h.lives c hc]

theorem mono (h : SameArgs x calls s s') {fewer : List CallRef} (hf : ∀ c ∈ fewer, c ∈ calls) :
    SameArgs x fewer s s' :=
  ⟨h.sizeRoots, h.sizeCalls, h.sizeShadows, h.param, h.shadow, fun c hc => h.arg c (hf c hc),
    fun c hc => h.lives c (hf c hc)⟩

theorem fits {u : Undo} (h : SameArgs x calls s s') (hu : u.Fits s y) : u.Fits s' y := by
  induction u with
  | rebind r z former => exact ⟨Nat.lt_of_lt_of_le hu.1 h.sizeRoots, hu.2⟩
  | unhide k inner ih =>
    obtain ⟨hk, hp, hi⟩ := hu
    exact ⟨Nat.lt_of_lt_of_le hk h.sizeShadows, by rw [h.param k hk, hp], ih hi⟩

end SameArgs

namespace SameIn

theorem refl (x : String) (scope : Scope) (s : Store) : SameIn x scope s s :=
  ⟨.refl x scope.calls s, rfl⟩

theorem trans (h : SameIn x scope s s') (h' : SameIn x scope s' s'') : SameIn x scope s s'' :=
  ⟨h.toSameArgs.trans h'.toSameArgs, h'.var.trans h.var⟩

theorem symm (h : SameIn x scope s s') (hr : s'.roots.size = s.roots.size)
    (hc : s'.calls.size = s.calls.size) (hs : s'.shadows.size = s.shadows.size) :
    SameIn x scope s' s :=
  ⟨h.toSameArgs.symm hr hc hs, h.var.symm⟩

theorem mono (h : SameIn x scope s s') {fewer : List CallRef} (hf : ∀ c ∈ fewer, c ∈ scope.calls) :
    SameIn x ⟨fewer, scope.root⟩ s s' :=
  ⟨h.toSameArgs.mono hf, h.var⟩

end SameIn

/-! ### The steps of giving back -/

section

variable {k : Nat} {p : Shadow}

theorem isLive_finish (hk : k < s.shadows.size) (u : Undo) :
    (s.finish k).isLive x u = (s.isLive x u && !u.unhides k) := by
  cases u with
  | rebind r z former => rfl
  | unhide h inner =>
    simp only [isLive, shadow_finish hk, Undo.unhides]
    by_cases hh : h = k <;> simp [hh]

/-- Once a parameter is marked as given back, the undos that are left are those that were left before and
do not give it back. -/
theorem lives_finish (hk : k < s.shadows.size) (c : CallRef) :
    (s.finish k).lives x c = (s.lives x c).filter fun u => !u.unhides k := by
  rw [lives, lives, List.filter_filter]
  refine List.filter_congr fun u _ => ?_
  rw [isLive_finish hk, Bool.and_comm]

theorem SameArgs.finish (h : SameArgs x calls s s') (hk : k < s.shadows.size)
    (hx : (s.shadow k).param = x) : SameArgs x calls (s.finish k) (s'.finish k) := by
  have hk' := Nat.lt_of_lt_of_le hk h.sizeShadows
  refine ⟨h.sizeRoots, h.sizeCalls, by simpa using h.sizeShadows, ?_, ?_, h.arg, ?_⟩
  · intro j hj
    rw [shadow_finish hk', shadow_finish hk]
    split
    · exact h.param k hk
    · exact h.param j (by simpa using hj)
  · intro j hj hjx
    rw [shadow_finish hk] at hjx
    rw [shadow_finish hk', shadow_finish hk]
    split
    · rw [h.shadow k hk hx]
    · rename_i hne
      rw [if_neg hne] at hjx
      exact h.shadow j (by simpa using hj) hjx
  · intro c hc
    rw [lives_finish hk', lives_finish hk, h.lives c hc]

theorem lives_giveBack (hp : p.call.index < s.calls.size) (c : CallRef) :
    (s.giveBack p).lives x c = s.lives x c := by
  rw [lives, hidden_giveBack hp]
  rfl

theorem SameArgs.giveBack (h : SameArgs x calls s s') (hp : p.call.index < s.calls.size) :
    SameArgs x calls (s.giveBack p) (s'.giveBack p) := by
  have hp' := Nat.lt_of_lt_of_le hp h.sizeCalls
  refine ⟨h.sizeRoots, ?_, h.sizeShadows, h.param, h.shadow, ?_, ?_⟩
  · rw [size_calls_giveBack, size_calls_giveBack]
    exact h.sizeCalls
  · intro c hc
    rw [arg_giveBack hp', arg_giveBack hp, h.arg c hc]
  · intro c hc
    rw [lives_giveBack hp', lives_giveBack hp, h.lives c hc]

end

/-! ### Giving back -/

variable {u : Undo}

/-- Undoing takes stores that agree to stores that agree. -/
theorem SameArgs.undo (h : SameArgs x calls s s') (hs : s.Sound) (hu : u.Fits s x) :
    SameArgs x calls (undo u s) (undo u s') := by
  induction u generalizing s s' with
  | rebind r z former =>
    cases former <;>
      exact ⟨by simpa [Store.undo, setRoot] using h.sizeRoots, h.sizeCalls, h.sizeShadows, h.param,
        h.shadow, h.arg, h.lives⟩
  | unhide k inner ih =>
    obtain ⟨hk, hp, hi⟩ := hu
    rw [undo_unhide, undo_unhide, h.shadow k hk hp]
    split
    · exact h
    · have hin := ih (h.finish hk hp) (hs.finish k) (hi.mono (grows_finish k))
      refine hin.giveBack ?_
      rw [((hs.finish k).undone_undo (hi.mono (grows_finish k))).calls]
      exact (hs.shadows k hk).1

theorem SameArgs.runs (h : SameArgs x calls s s') (hu : u.Fits s x) (hr : u.Runs s) :
    u.Runs s' := by
  induction u generalizing s s' with
  | rebind r z former => trivial
  | unhide k inner ih =>
    obtain ⟨hk, hp, hi⟩ := hu
    refine ⟨by rw [h.shadow k hk hp]; exact hr.1, ?_⟩
    exact ih (h.finish hk hp) (hi.mono (grows_finish k)) hr.2

theorem runs_of_shadows {u : Undo} (h : u.Runs s) (hs : s'.shadows = s.shadows) : u.Runs s' := by
  induction u generalizing s s' with
  | rebind r y former => trivial
  | unhide k inner ih =>
    have hk := shadow_of_eq hs k
    refine ⟨hk ▸ h.1, ih h.2 ?_⟩
    rw [finish, finish, hk, hs]

/-- Undoing takes two stores to stores with one variable, if they had one before or the undo goes all the
way to the variable. -/
theorem SameArgs.var_undo (h : SameArgs x calls s s') (hu : u.Fits s x) {r : RootRef}
    (hv : s'.var x r = s.var x r ∨ u.Runs s ∧ u.root = r) :
    (Store.undo u s').var x r = (Store.undo u s).var x r := by
  induction u generalizing s s' with
  | rebind q z former =>
    obtain ⟨hq, rfl⟩ := hu
    have hq' := Nat.lt_of_lt_of_le hq h.sizeRoots
    have hv' : ¬ r = q → s'.var z r = s.var z r := fun hr => hv.resolve_right fun ⟨_, he⟩ => hr he.symm
    cases former with
    | some v =>
      show (s'.setRoot q _).var z r = (s.setRoot q _).var z r
      rw [var_setRoot_put hq', var_setRoot_put hq]
      split
      · rfl
      · exact hv' (by simp_all)
    | none =>
      show (s'.setRoot q _).var z r = (s.setRoot q _).var z r
      rw [var_setRoot_remove hq', var_setRoot_remove hq]
      split
      · rfl
      · exact hv' (by simp_all)
  | unhide k inner ih =>
    obtain ⟨hk, hp, hi⟩ := hu
    rw [undo_unhide, undo_unhide, h.shadow k hk hp]
    split
    -- Where something of the undo is done, it stops here, and the variable is the same already.
    · rename_i hd
      exact hv.resolve_right fun ⟨hr, _⟩ => by simp [hr.1] at hd
    · refine ih (h.finish hk hp) (hi.mono (grows_finish k)) ?_
      exact hv.imp id fun ⟨hr, he⟩ => ⟨hr.2, he⟩

theorem SameIn.undo (h : SameIn x scope s s') (hs : s.Sound) (hu : u.Fits s x) :
    SameIn x scope (undo u s) (undo u s') :=
  ⟨h.toSameArgs.undo hs hu, h.toSameArgs.var_undo hu (.inl h.var)⟩

/-! ### Steps that do not concern a name -/

theorem SameIn.of_sameFrames {other : Scope} (h : SameFrames other s s') : SameIn x scope s s' := by
  have hg : s.Grows s' := .of_eq h.roots h.calls h.shadows
  refine ⟨⟨hg.roots, hg.calls, hg.shadows, hg.param, fun k _ _ => shadow_of_eq h.shadows k, ?_, ?_⟩,
    ?_⟩
  · intro c _
    rw [Store.arg, call_of_eq h.calls, Store.arg]
  · intro c _
    rw [Store.lives, call_of_eq h.calls, isLive_of_shadows h.shadows, Store.lives]
  · rw [Store.var, root_of_eq h.roots, Store.var]

/-- Making macros known. -/
theorem SameIn.addMacros {other : Scope} (hv : other.Valid s) {ms : List MacroDef} :
    SameIn x scope s (s.addMacros other.root ms) := by
  refine ⟨⟨by simp [Store.addMacros, setRoot], Nat.le_refl _, Nat.le_refl _, fun _ _ => rfl,
    fun _ _ _ => rfl, fun _ _ => rfl, fun _ _ => rfl⟩, ?_⟩
  rw [Store.var, Store.addMacros, root_setRoot hv.root]
  split
  · rename_i hr
    rw [← hr]
    rfl
  · rfl

/-- Undoing the assignment of another name. -/
theorem SameIn.undo_of_ne (hs : s.Sound) (hu : u.Fits s y) (hy : y ≠ x) :
    SameIn x scope s (Store.undo u s) := by
  have h := hs.undone_undo hu
  have hshadow : ∀ k, (s.shadow k).param = x → (Store.undo u s).shadow k = s.shadow k := by
    intro k hk
    rcases h.shadow k with he | ⟨-, hp, -⟩
    · exact he
    · exact absurd (hp.symm.trans hk) hy
  refine ⟨⟨Nat.le_of_eq h.roots.symm, Nat.le_of_eq h.calls.symm, Nat.le_of_eq h.shadows.symm,
    h.grows.param, fun k _ => hshadow k, ?_, ?_⟩, h.var x _ (Ne.symm hy)⟩
  · intro c _
    rcases h.arg x c with he | ⟨hx, -⟩
    · exact he
    · exact absurd hx.symm hy
  · intro c _
    rw [Store.lives, Store.lives, h.hidden]
    refine List.filter_congr fun v _ => ?_
    cases v with
    | rebind => rfl
    | unhide k inner =>
      rcases h.shadow k with he | ⟨-, hp, he⟩
      · simp only [isLive, he]
      · simp [isLive, he, hp, hy]

/-- Undoing again what is undone, or what is of another name. -/
theorem SameIn.undo_of_not_live (hs : s.Sound) {k : Nat} {inner : Undo}
    (hf : (Undo.unhide k inner).Fits s (s.shadow k).param)
    (hl : s.isLive x (.unhide k inner) = false) :
    SameIn x scope s (Store.undo (.unhide k inner) s) := by
  by_cases hx : (s.shadow k).param = x
  · have hd : (s.shadow k).done = true := by simpa [isLive, hx] using hl
    rw [undo_unhide, if_pos hd]
    exact .refl x scope s
  · exact .undo_of_ne hs hf hx

/-- Assigning to another name. -/
theorem SameIn.assign_of_ne (hs : s.Sound) {other : Scope} (hr : other.root.index < s.roots.size)
    {v : Value} (hy : y ≠ x) : SameIn x scope s (s.assign other y v).2 := by
  have h := assigned_assign other y v hr
  refine ⟨⟨h.grows.roots, h.grows.calls, h.grows.shadows, h.grows.param, fun k hk _ => h.same k hk,
    ?_, ?_⟩, ?_⟩
  · intro c _
    rw [arg_assign, if_neg (by simp [Ne.symm hy])]
  · intro c _
    obtain ⟨new, he, hnew⟩ := h.hidden c
    rw [Store.lives, Store.lives, he, List.filter_append, List.filter_eq_nil_iff.2, List.nil_append]
    · exact filter_isLive hs h.same x c
    · intro u hu
      obtain ⟨k, inner, rfl, -, -, -, hf⟩ := hnew u hu
      simp [isLive, hf.2.1, hy]
  · rw [var_assign _ _ _ _ hr, if_neg (by simp [Ne.symm hy])]

/-- Beginning a call. -/
theorem SameIn.beginCall (hv : ∀ c ∈ scope.calls, c.index < s.calls.size) {other : Scope}
    {m : MacroDef} {args : List Expr} {body : Option (List Node)} :
    SameIn x scope s (s.beginCall other m args body).2 := by
  have hg := grows_beginCall s other m args body
  refine ⟨⟨hg.roots, hg.calls, hg.shadows, hg.param, fun k _ _ => shadow_beginCall k, ?_, ?_⟩, ?_⟩
  · intro c hc
    rw [arg_beginCall, if_neg (Nat.ne_of_lt (hv c hc))]
  · intro c hc
    rw [Store.lives, Store.lives, (call_beginCall c).2, if_neg (Nat.ne_of_lt (hv c hc)),
      isLive_of_shadows shadows_beginCall]
  · rw [Store.var, root_beginCall, Store.var]

/-! ### Ending a call -/

variable {c : CallRef} {us : List Undo}

theorem lives_forget (hc : c.index < s.calls.size) (d : CallRef) :
    (s.forget c).lives x d = if d = c then [] else s.lives x d := by
  rw [lives, hidden_forget hc]
  split <;> rfl

theorem SameArgs.forget (h : SameArgs x calls s s') (hc : c.index < s.calls.size) :
    SameArgs x calls (s.forget c) (s'.forget c) := by
  have hc' := Nat.lt_of_lt_of_le hc h.sizeCalls
  refine ⟨h.sizeRoots, ?_, h.sizeShadows, h.param, h.shadow, ?_, ?_⟩
  · simpa [Store.forget, setCall] using h.sizeCalls
  · intro d hd
    rw [arg_forget hc', arg_forget hc, h.arg d hd]
  · intro d hd
    rw [lives_forget hc', lives_forget hc, h.lives d hd]

theorem SameIn.forget_of_not_live (hc : c.index < s.calls.size) (hl : s.lives x c = []) :
    SameIn x scope s (s.forget c) := by
  refine ⟨⟨Nat.le_refl _, by simp [Store.forget, setCall], Nat.le_refl _, fun _ _ => rfl,
    fun _ _ _ => rfl, fun d _ => arg_forget hc x d, ?_⟩, rfl⟩
  intro d _
  rw [lives_forget hc]
  split
  · rename_i hd
    rw [hd, hl]
  · rfl

theorem SameIn.undoAll (h : SameIn x scope s s') (hs : s.Sound) (hu : ∀ u ∈ us, u.Fits s x) :
    SameIn x scope (undoAll us s) (undoAll us s') := by
  induction us generalizing s s' with
  | nil => exact h
  | cons u us ih =>
    have hu' := hu u (List.mem_cons_self ..)
    have hun := hs.undone_undo hu'
    refine ih (h.undo hs hu') (hun.sound hs) fun v hv => ?_
    exact (hu v (List.mem_cons_of_mem _ hv)).mono hun.grows

theorem sizes_undoAll (hs : s.Sound) (hu : ∀ u ∈ us, ∃ y, u.Fits s y) :
    (undoAll us s).roots.size = s.roots.size ∧ (undoAll us s).calls.size = s.calls.size ∧
      (undoAll us s).shadows.size = s.shadows.size := by
  induction us generalizing s with
  | nil => exact ⟨rfl, rfl, rfl⟩
  | cons u us ih =>
    obtain ⟨y, hy⟩ := hu u (List.mem_cons_self ..)
    have hun := hs.undone_undo hy
    obtain ⟨hr, hc, hh⟩ := ih (hun.sound hs) fun v hv => by
      obtain ⟨z, hz⟩ := hu v (List.mem_cons_of_mem _ hv)
      exact ⟨z, hz.mono hun.grows⟩
    exact ⟨hr.trans hun.roots, hc.trans hun.calls, hh.trans hun.shadows⟩

theorem isLive_of_undone (h : Undone s s' y) {v : Undo} (hl : s'.isLive x v = true) :
    s.isLive x v = true := by
  cases v with
  | rebind => cases hl
  | unhide k inner =>
    rcases h.shadow k with he | ⟨-, -, he⟩
    · simpa [isLive, he] using hl
    · simp [isLive, he] at hl

/-- Of some undos only those of a name that are live matter for the name. -/
theorem SameIn.undoAll_filter (hs : s.Sound) {keep : Undo → Bool}
    (hus : ∀ u ∈ us, ∃ k inner, u = .unhide k inner ∧ u.Fits s (s.shadow k).param)
    (hx : ∀ u ∈ us, keep u = true → u.Fits s x) (hk : ∀ u ∈ us, s.isLive x u = true → keep u = true) :
    SameIn x scope (Store.undoAll (us.filter keep) s) (Store.undoAll us s) := by
  induction us generalizing s with
  | nil => exact .refl x scope s
  | cons u us ih =>
    obtain ⟨k, inner, rfl, hf⟩ := hus u (List.mem_cons_self ..)
    have hun := hs.undone_undo hf
    have hrest : SameIn x scope (Store.undoAll (us.filter keep) (Store.undo (.unhide k inner) s))
        (Store.undoAll us (Store.undo (.unhide k inner) s)) := by
      refine ih (hun.sound hs) ?_ ?_ ?_
      · intro v hv
        obtain ⟨j, i, rfl, hf'⟩ := hus v (List.mem_cons_of_mem _ hv)
        refine ⟨j, i, rfl, ?_⟩
        rw [hun.grows.param j hf'.1]
        exact hf'.mono hun.grows
      · exact fun v hv hkeep => (hx v (List.mem_cons_of_mem _ hv) hkeep).mono hun.grows
      · exact fun v hv hl => hk v (List.mem_cons_of_mem _ hv) (isLive_of_undone hun hl)
    cases hkeep : keep (.unhide k inner) with
    | true =>
      rw [List.filter_cons_of_pos hkeep]
      exact hrest
    | false =>
      rw [List.filter_cons_of_neg (by simp [hkeep])]
      -- An undo that is left out does nothing to the name, so it can be carried out first.
      have hl : s.isLive x (.unhide k inner) = false := by
        cases hl : s.isLive x (.unhide k inner) with
        | false => rfl
        | true => rw [hk _ (List.mem_cons_self ..) hl] at hkeep; cases hkeep
      refine SameIn.trans (.undoAll (.undo_of_not_live hs hf hl) hs fun v hv => ?_) hrest
      obtain ⟨hv, hkv⟩ := List.mem_filter.1 hv
      exact hx v (List.mem_cons_of_mem _ hv) hkv

theorem fits_of_live (hs : s.Sound) : ∀ u ∈ s.lives x c, u.Fits s x := by
  intro u hu
  obtain ⟨hu, hl⟩ := List.mem_filter.1 hu
  obtain ⟨k, inner, rfl, -, hf⟩ := hs.hidden c u hu
  have hx : (s.shadow k).param = x := by
    rw [isLive, Bool.and_eq_true] at hl
    exact of_decide_eq_true hl.1
  rwa [hx] at hf

/-- The end of a call does to a name what its live undos do. -/
theorem SameIn.undoAll_lives (hs : s.Sound) (hc : c.index < s.calls.size) :
    SameIn x scope (Store.undoAll (s.lives x c) (s.forget c)) (s.restoreParams c) := by
  refine .undoAll_filter (hs.forget hc) ?_ ?_ fun u _ hl => hl
  · intro u hu
    obtain ⟨k, inner, rfl, -, hf⟩ := hs.hidden c u hu
    exact ⟨k, inner, rfl, hf.mono grows_forget⟩
  · intro u hu hl
    exact (fits_of_live hs u (List.mem_filter.2 ⟨hu, hl⟩)).mono grows_forget

theorem sizes_restoreParams (hs : s.Sound) (hc : c.index < s.calls.size) :
    (s.restoreParams c).roots.size = s.roots.size ∧ (s.restoreParams c).calls.size = s.calls.size ∧
      (s.restoreParams c).shadows.size = s.shadows.size := by
  have h := sizes_undoAll (hs.forget hc) (fits_of_hidden (c := c) hs)
  refine ⟨h.1, h.2.1.trans ?_, h.2.2⟩
  simp [forget, setCall]

/-- The end of a call takes stores that agree to stores that agree. They need not agree on the variable
before when what the call gives back goes all the way to the variable. -/
theorem SameArgs.restoreParams (h : SameArgs x scope.calls s s') (hs : s.Sound) (hs' : s'.Sound)
    (hc : c.index < s.calls.size) (hl : s'.lives x c = s.lives x c)
    (hv : s'.var x scope.root = s.var x scope.root ∨
      ∃ u us, s.lives x c = u :: us ∧ u.Runs s ∧ u.root = scope.root) :
    SameIn x scope (s.restoreParams c) (s'.restoreParams c) := by
  have hc' := Nat.lt_of_lt_of_le hc h.sizeCalls
  have hforget := h.forget hc
  have hfits : ∀ u ∈ s.lives x c, u.Fits (s.forget c) x := fun u hu =>
    (fits_of_live hs u hu).mono grows_forget
  -- Only the live undos of the name matter, and these are the same in both stores.
  have hlives : SameIn x scope (Store.undoAll (s.lives x c) (s.forget c))
      (Store.undoAll (s'.lives x c) (s'.forget c)) := by
    rw [hl]
    rcases hv with hv | ⟨u, us, he, hr, hroot⟩
    · exact SameIn.undoAll ⟨hforget, hv⟩ (hs.forget hc) hfits
    · rw [he] at hfits ⊢
      have hu := hfits u (List.mem_cons_self ..)
      have hun := (hs.forget hc).undone_undo hu
      have hfirst : SameIn x scope (Store.undo u (s.forget c)) (Store.undo u (s'.forget c)) :=
        ⟨hforget.undo (hs.forget hc) hu, hforget.var_undo hu (.inr ⟨runs_of_shadows hr rfl, hroot⟩)⟩
      show SameIn x scope (Store.undoAll us (Store.undo u (s.forget c)))
        (Store.undoAll us (Store.undo u (s'.forget c)))
      refine hfirst.undoAll (hun.sound (hs.forget hc)) fun v hv => ?_
      exact (hfits v (List.mem_cons_of_mem _ hv)).mono hun.grows
  have hend : SameIn x scope _ (s.restoreParams c) := .undoAll_lives hs hc
  have hsizes := sizes_undoAll (hs.forget hc) fun u hu => ⟨x, hfits u hu⟩
  have hsizes' := sizes_restoreParams hs hc
  have hback := hend.symm (hsizes'.1.trans hsizes.1.symm)
    (hsizes'.2.1.trans (hsizes.2.1.trans (by simp [Store.forget, setCall])).symm)
    (hsizes'.2.2.trans hsizes.2.2.symm)
  exact (hback.trans hlives).trans (.undoAll_lives hs' hc')

/-- The end of a call that gives nothing back of a name. -/
theorem SameIn.restoreParams_of_not_live (hs : s.Sound) (hc : c.index < s.calls.size)
    (hl : s.lives x c = []) : SameIn x scope s (s.restoreParams c) := by
  have h : SameIn x scope _ (s.restoreParams c) := .undoAll_lives hs hc
  rw [hl] at h
  exact (SameIn.forget_of_not_live hc hl).trans h

end Store

end Stencil
