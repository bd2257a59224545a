import Stencil.Proofs.Keep

/-!
# Beginning and ending a macro call

A call begins with its parameters bound to the arguments. When it ends, what assignments hid of them is
given back, whatever the body did: the call has the very parameters that it began with.
-/

namespace Stencil

theorem Bindings.mem_of_get?_foldl_put {α : Type} (pairs b : Bindings α) {y : String} {a : α}
    (h : (pairs.foldl (fun b p => b.put p.1 p.2) b).get? y = some a) :
    (y, a) ∈ pairs ∨ b.get? y = some a := by
  induction pairs generalizing b with
  | nil => exact .inr h
  | cons p ps ih =>
    rcases ih _ h with h | h
    · exact .inl (List.mem_cons_of_mem _ h)
    · rw [get?_put] at h
      split at h
      · rename_i hy
        cases h
        subst hy
        exact .inl (List.mem_cons_self ..)
      · exact .inr h

/-- What a name stands for in a list of bindings is in the list. -/
theorem Bindings.mem_of_get?_ofList {α : Type} {pairs : Bindings α} {y : String} {a : α}
    (h : (ofList pairs).get? y = some a) : (y, a) ∈ pairs := by
  rcases mem_of_get?_foldl_put pairs [] h with h | h
  · exact h
  · cases h

namespace Store

theorem scope_of_callParams {scope : Scope} {m : MacroDef} {args : List Expr} {y : String} {t : Thunk}
    (h : (callParams scope m args).get? y = some t) : t.scope = scope := by
  have hm := List.of_mem_zip (Bindings.mem_of_get?_ofList h)
  obtain ⟨e, -, rfl⟩ := List.mem_map.1 hm.2
  rfl

variable {s : Store} {scope : Scope} {m : MacroDef} {args : List Expr} {body : Option (List Node)}

theorem beginCall_fst : (s.beginCall scope m args body).1 = ⟨s.calls.size⟩ := by
  cases body <;> rfl

/-- The call that begins has its arguments, and the other calls are as they were. -/
theorem call_beginCall (d : CallRef) :
    ((s.beginCall scope m args body).2.call d).params =
        (if d.index = s.calls.size then callParams scope m args else (s.call d).params) ∧
      ((s.beginCall scope m args body).2.call d).hidden =
        (if d.index = s.calls.size then [] else (s.call d).hidden) := by
  cases body <;>
    simp only [beginCall, enterCall, call, Option.elim, addBlock, Heap.get_alloc] <;>
    split <;> exact ⟨rfl, rfl⟩

theorem arg_beginCall (y : String) (d : CallRef) :
    (s.beginCall scope m args body).2.arg y d =
      if d.index = s.calls.size then (callParams scope m args).get? y else s.arg y d := by
  rw [arg, (call_beginCall d).1]
  split <;> rfl

theorem shadows_beginCall : (s.beginCall scope m args body).2.shadows = s.shadows := by
  cases body <;> rfl

theorem roots_beginCall : (s.beginCall scope m args body).2.roots = s.roots := by
  cases body <;> rfl

theorem shadow_beginCall (k : Nat) : (s.beginCall scope m args body).2.shadow k = s.shadow k :=
  shadow_of_eq shadows_beginCall k

theorem root_beginCall (r : RootRef) : (s.beginCall scope m args body).2.root r = s.root r :=
  root_of_eq roots_beginCall r

theorem size_calls_beginCall :
    (s.beginCall scope m args body).2.calls.size = s.calls.size + 1 := by
  cases body <;> exact Heap.size_alloc ..

theorem call_beginCall_of_lt {d : CallRef} (hd : d.index < s.calls.size) :
    (s.beginCall scope m args body).2.call d = s.call d := by
  cases body <;>
    simp only [beginCall, enterCall, call, Option.elim, addBlock, Heap.get_alloc] <;>
    rw [if_neg (Nat.ne_of_lt hd)]

theorem block_beginCall {d : CallRef} (hd : d.index < s.calls.size) :
    ((s.beginCall scope m args body).2.call d).block = (s.call d).block := by
  rw [call_beginCall_of_lt hd]

theorem block_new_call {c : CallRef} (hc : c.index = s.calls.size) :
    ((s.beginCall scope m args body).2.call c).block = body.map fun _ => ⟨s.nextId, "#@" ++ m.name⟩ := by
  cases body <;>
    simp only [beginCall, enterCall, call, Option.elim, addBlock, Heap.get_alloc, if_pos hc] <;>
    rfl

variable (s scope m args body) in
theorem grows_beginCall : s.Grows (s.beginCall scope m args body).2 :=
  .of_shadows_eq (Nat.le_of_eq (congrArg _ roots_beginCall.symm))
    (by rw [size_calls_beginCall]; omega) shadows_beginCall fun _ hd => block_beginCall hd

variable (m args body) in
theorem Sound.beginCall (hs : s.Sound) (hv : scope.Valid s) :
    (s.beginCall scope m args body).2.Sound := by
  have hg := grows_beginCall s scope m args body
  refine hs.step hg ?_ ?_ ?_ ?_
  · intro c y t ht
    rw [arg_beginCall] at ht
    split at ht
    · rw [scope_of_callParams ht]
      exact .inr (hv.mono hg)
    · exact .inl ht
  · intro h hge hlt
    rw [shadows_beginCall] at hlt
    exact absurd hlt (Nat.not_lt.2 hge)
  · intro c u hu
    rw [(call_beginCall c).2] at hu
    split at hu
    · cases hu
    · exact .inl hu
  · intro k b hk
    cases body with
    | none => exact .inl hk
    | some nodes =>
      simp only [Store.beginCall, enterCall, Option.elim, addBlock, Std.TreeMap.getElem?_insert] at hk
      split at hk
      · cases hk
        exact .inr (hv.mono hg)
      · exact .inl hk

variable (m args body) in
theorem Progress.beginCall (hs : s.Sound) (hv : scope.Valid s) :
    Progress s (s.beginCall scope m args body).2 := by
  refine ⟨hs.beginCall m args body hv, grows_beginCall .., fun c params hc hk => ?_⟩
  have hne : c.index ≠ s.calls.size := Nat.ne_of_lt hc
  refine ⟨?_, ?_, ?_⟩
  · intro y t ht
    rw [arg_beginCall, if_neg hne] at ht
    exact hk.args y t ht
  · intro h hlt
    rw [shadows_beginCall] at hlt
    rw [shadow_beginCall]
    exact hk.shadows h hlt
  · intro y t ht hn
    rw [arg_beginCall, if_neg hne] at hn
    obtain ⟨u, hu, h, inner, rfl, hp, hd⟩ := hk.hidden y t ht hn
    refine ⟨_, ?_, h, inner, rfl, by rw [shadow_beginCall, hp], by rw [shadow_beginCall, hd]⟩
    rw [(call_beginCall c).2, if_neg hne]
    exact hu

/-- A call has its parameters when it begins. -/
theorem keeps_beginCall (hs : s.Sound) :
    (s.beginCall scope m args body).2.Keeps (s.beginCall scope m args body).1
      (callParams scope m args) := by
  rw [beginCall_fst]
  refine ⟨?_, ?_, ?_⟩
  · intro y t ht
    rwa [arg_beginCall, if_pos rfl] at ht
  · intro h hlt hc
    rw [shadows_beginCall] at hlt
    have hbound := (hs.shadows h hlt).1
    rw [shadow_beginCall] at hc
    rw [hc] at hbound
    exact absurd hbound (Nat.lt_irrefl _)
  · intro y t ht hn
    rw [arg_beginCall, if_pos rfl, ht] at hn
    cases hn

variable (m args body) in
theorem Valid.enter (hv : scope.Valid s) :
    (scope.enter (s.beginCall scope m args body).1).Valid (s.beginCall scope m args body).2 := by
  have hv' := hv.mono (grows_beginCall s scope m args body)
  rw [beginCall_fst]
  refine ⟨hv'.root, ?_, ?_⟩
  · refine List.nodup_cons.2 ⟨fun hmem => ?_, hv.nodup⟩
    exact absurd (hv.calls _ hmem) (Nat.lt_irrefl _)
  · intro c hc
    rcases List.mem_cons.1 hc with rfl | hc
    · rw [size_calls_beginCall]
      exact Nat.lt_succ_self _
    · exact hv'.calls c hc

/-! ### The end of a call -/

/-- Takes assignments back, the first of a list first. -/
def undoAll (us : List Undo) (s : Store) : Store :=
  us.foldl (fun s u => undo u s) s

/-- Forgets the undos of a call. -/
def forget (s : Store) (c : CallRef) : Store :=
  s.setCall c { s.call c with hidden := [] }

theorem restoreParams_eq (s : Store) (c : CallRef) :
    s.restoreParams c = undoAll (s.call c).hidden (s.forget c) := rfl

variable {c d : CallRef} {params : Bindings Thunk}

theorem arg_forget (hc : c.index < s.calls.size) (y : String) (d : CallRef) :
    (s.forget c).arg y d = s.arg y d := by
  rw [arg, forget, call_setCall hc]
  by_cases hd : d = c <;> simp [hd, arg]

theorem hidden_forget (hc : c.index < s.calls.size) (d : CallRef) :
    ((s.forget c).call d).hidden = if d = c then [] else (s.call d).hidden := by
  rw [forget, call_setCall hc]
  by_cases hd : d = c <;> simp [hd]

theorem grows_forget : s.Grows (s.forget c) :=
  .of_shadows_eq (Nat.le_refl _) (by simp [forget, setCall]) rfl fun d _ => block_setCall (by rfl) d

theorem Sound.forget (hs : s.Sound) (hc : c.index < s.calls.size) : (s.forget c).Sound := by
  refine hs.step grows_forget ?_ ?_ ?_ ?_
  · intro d y t ht
    rw [arg_forget hc] at ht
    exact .inl ht
  · intro h hge hlt
    exact absurd hlt (Nat.not_lt.2 hge)
  · intro d u hu
    rw [hidden_forget hc] at hu
    split at hu
    · cases hu
    · exact .inl hu
  · intro k b hk
    exact .inl hk

theorem Progress.undoAll (hs : s.Sound) {us : List Undo} (hu : ∀ u ∈ us, ∃ y, u.Fits s y) :
    Progress s (undoAll us s) := by
  induction us generalizing s with
  | nil => exact .refl hs
  | cons u us ih =>
    obtain ⟨y, hy⟩ := hu u (List.mem_cons_self ..)
    have h := Progress.undo hs hy
    refine h.trans (ih h.sound fun u' hu' => ?_)
    obtain ⟨z, hz⟩ := hu u' (List.mem_cons_of_mem _ hu')
    exact ⟨z, hz.mono h.grows⟩

theorem fits_of_hidden (hs : s.Sound) :
    ∀ u ∈ (s.call c).hidden, ∃ y, u.Fits (s.forget c) y := by
  intro u hu
  obtain ⟨h, inner, rfl, -, hf⟩ := hs.hidden c u hu
  exact ⟨_, hf.mono grows_forget⟩

theorem progress_restoreParams (hs : s.Sound) (hc : c.index < s.calls.size) :
    Progress (s.forget c) (s.restoreParams c) :=
  .undoAll (hs.forget hc) (fits_of_hidden hs)

/-- What a call leaves behind keeps the parameters of all other calls. -/
theorem Keeps.restoreParams (hk : s.Keeps d params) (hs : s.Sound) (hc : c.index < s.calls.size)
    (hd : d ≠ c) (hlt : d.index < s.calls.size) : (s.restoreParams c).Keeps d params := by
  refine (progress_restoreParams hs hc).keeps d params (Nat.lt_of_lt_of_le hlt grows_forget.calls) ?_
  refine ⟨?_, hk.shadows, ?_⟩
  · intro y t ht
    rw [arg_forget hc] at ht
    exact hk.args y t ht
  · intro y t ht hn
    rw [arg_forget hc] at hn
    obtain ⟨u, hu, hl⟩ := hk.hidden y t ht hn
    refine ⟨u, ?_, hl⟩
    rw [hidden_forget hc, if_neg hd]
    exact hu

/-- While the undos of a call are carried out one by one, each of its parameters is there or still to be
given back by one of the others. -/
theorem arg_undoAll (hs : s.Sound) {us : List Undo}
    (hu : ∀ u ∈ us, ∃ h inner, u = .unhide h inner ∧ (s.shadow h).call = c ∧
      u.Fits s (s.shadow h).param)
    (hargs : ∀ y t, s.arg y c = some t → params.get? y = some t)
    (hshadows : ∀ h, h < s.shadows.size → (s.shadow h).call = c →
      params.get? (s.shadow h).param = some (s.shadow h).thunk)
    (hleft : ∀ y t, params.get? y = some t → s.arg y c = none → ∃ h inner, .unhide h inner ∈ us ∧
      (s.shadow h).param = y ∧ (s.shadow h).done = false) (y : String) :
    (undoAll us s).arg y c = params.get? y := by
  induction us generalizing s with
  | nil =>
    show s.arg y c = _
    cases ha : s.arg y c with
    | some t => rw [hargs y t ha]
    | none =>
      cases hp : params.get? y with
      | none => rfl
      | some t =>
        obtain ⟨h, inner, hmem, -⟩ := hleft y t hp ha
        cases hmem
  | cons u us ih =>
    obtain ⟨h, inner, rfl, hcall, hf⟩ := hu u (List.mem_cons_self ..)
    have hun := hs.undone_undo hf
    refine ih (hun.sound hs) ?_ ?_ ?_ ?_
    · intro u' hu'
      obtain ⟨k, i, rfl, hc, hf'⟩ := hu u' (List.mem_cons_of_mem _ hu')
      refine ⟨k, i, rfl, by rw [hun.grows.call k hf'.1, hc], ?_⟩
      rw [hun.grows.param k hf'.1]
      exact hf'.mono hun.grows
    · intro z t ht
      rcases hun.arg z c with he | ⟨rfl, k, hlt, hc, hp, -, -, he⟩
      · exact hargs z t (he ▸ ht)
      · rw [he] at ht
        cases ht
        rw [← hp]
        exact hshadows k hlt hc
    · intro k hlt hc
      rw [hun.shadows] at hlt
      rw [hun.grows.call k hlt] at hc
      rw [hun.grows.param k hlt, hun.grows.thunk k hlt]
      exact hshadows k hlt hc
    · intro z t hz hn
      obtain ⟨k, i, hmem, hp, hd⟩ := hleft z t hz (hun.absent hn)
      obtain ⟨k', i', he, hkc, hkf⟩ := hu _ hmem
      cases he
      -- An undo that is done has given its parameter back, so this one is not, and is not the first.
      have hd' := hun.pending hd (by rwa [hp, hkc])
      refine ⟨k, i, (List.mem_cons.1 hmem).resolve_left ?_, ?_, hd'⟩
      · intro he
        cases he
        change (undo (.unhide h inner) s).arg z c = none at hn
        rw [undo_unhide, if_neg (by simp [hd])] at hn
        rw [arg_giveBack, if_pos ⟨hkc.symm, hp.symm⟩] at hn
        · cases hn
        · rw [((hs.finish h).undone_undo (hkf.2.2.mono (grows_finish h))).calls]
          exact (hs.shadows h hkf.1).1
      · rw [hun.grows.param k hkf.1, hp]

/-- A call ends with the very parameters that it has kept. -/
theorem arg_restoreParams (hk : s.Keeps c params) (hs : s.Sound) (hc : c.index < s.calls.size)
    (y : String) : (s.restoreParams c).arg y c = params.get? y := by
  refine arg_undoAll (hs.forget hc) ?_ ?_ hk.shadows ?_ y
  · intro u hu
    obtain ⟨h, inner, rfl, hcall, hf⟩ := hs.hidden c u hu
    exact ⟨h, inner, rfl, hcall, hf.mono grows_forget⟩
  · intro z t ht
    rw [arg_forget hc] at ht
    exact hk.args z t ht
  · intro z t hz hn
    rw [arg_forget hc] at hn
    obtain ⟨u, hu, h, inner, rfl, hp, hd⟩ := hk.hidden z t hz hn
    exact ⟨h, inner, hu, hp, hd⟩

end Store

end Stencil
