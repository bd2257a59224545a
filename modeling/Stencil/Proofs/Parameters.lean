import Stencil.Proofs.Conditions

/-!
# Parameters that are not assigned

During a call of a macro a parameter stands for its argument in the scope of the caller, until the name is
assigned in a scope that the call belongs to. `InCall` says that something is begun in the middle of such a call,
before or without an assignment; there `InCall.lookup_eq` gives the argument, whatever was done on the way.
-/

namespace Stencil

/-! ### What takes an argument away -/

namespace Store

variable {s s' : Store} {p : String} {c : CallRef}

theorem isSome_arg_of_eq (h : s'.calls = s.calls) (hp : (s.arg p c).isSome) : (s'.arg p c).isSome := by
  rwa [arg, call_of_eq h]

/-- Taking an assignment back takes no argument away. -/
theorem isSome_arg_undo (hp : (s.arg p c).isSome) (u : Undo) : ((undo u s).arg p c).isSome := by
  induction u generalizing s with
  | rebind r x former =>
    refine isSome_arg_of_eq ?_ hp
    cases former <;> rfl
  | unhide h inner ih =>
    rw [undo_unhide]
    split
    · exact hp
    · have hfinish : ((s.finish h).arg p c).isSome := hp
      have hinner := ih hfinish
      rcases Nat.lt_or_ge (s.shadow h).call.index (undo inner (s.finish h)).calls.size with hlt | hge
      · rw [arg_giveBack hlt]
        split
        · rfl
        · exact hinner
      · rwa [giveBack, setCall_of_ge hge]

theorem isSome_arg_restoreParams (hp : (s.arg p c).isSome) (d : CallRef) :
    ((s.restoreParams d).arg p c).isSome := by
  rw [restoreParams_eq]
  have hforget : ((s.forget d).arg p c).isSome := by
    rcases Nat.lt_or_ge d.index s.calls.size with hlt | hge
    · rwa [arg_forget hlt]
    · rwa [forget, setCall_of_ge hge]
  generalize (s.call d).hidden = us
  generalize s.forget d = s₁ at hforget
  induction us generalizing s₁ with
  | nil => exact hforget
  | cons u us ih => exact ih _ (isSome_arg_undo hforget u)

end Store

/-- Only an assignment of the name in a scope that the call belongs to takes an argument away. -/
theorem Event.isSome_arg {s : Store} {p : String} {c : CallRef} (hp : (s.arg p c).isSome) (e : Event)
    (he : ∀ scope v, e = .assign scope p v → c ∉ scope.calls) : ((e.effect s).arg p c).isSome := by
  have hapart {α : Type} {x : Run α} (h : Run.Apart default x) : ((x.after s).arg p c).isSome :=
    Store.isSome_arg_of_eq (h s).calls hp
  cases e with
  | act fuel scope a => exact Store.isSome_arg_of_eq (a.apart fuel scope s).calls hp
  | assign scope x v =>
    show ((s.assign scope x v).2.arg p c).isSome
    rw [Store.arg_assign]
    split
    · rename_i h
      obtain ⟨hc, rfl⟩ := h
      exact absurd hc (he scope v rfl)
    · exact hp
  | undo u => exact Store.isSome_arg_undo hp u
  | newLoop source => exact hapart (.toRun _)
  | loopNext r => exact hapart (.toRun _)
  | beginCall scope m args body =>
    obtain ⟨t, ht⟩ := Option.isSome_iff_exists.1 hp
    show ((s.beginCall scope m args body).2.arg p c).isSome
    rwa [Store.arg_beginCall, if_neg (Nat.ne_of_lt (Store.lt_of_arg_eq_some ht))]
  | endCall d => exact Store.isSome_arg_restoreParams hp d
  | load r name => exact hapart (.load r name)
  | parseResource r name => exact hapart (.parseResource r name)
  | parseText r resource text => exact hapart (.parseText r resource text)
  | template | setText | beginRoot | outside => exact hp

/-- Whether no event assigns a name in a scope that a call belongs to. -/
def Spared (p : String) (c : CallRef) (es : List Event) : Prop :=
  ∀ e ∈ es, ∀ scope v, e = .assign scope p v → c ∉ scope.calls

theorem spared_of_assigns {p : String} {c : CallRef} {es : List Event} (h : es.all (!·.assigns) = true) :
    Spared p c es := by
  rintro e he scope v rfl
  cases List.all_eq_true.1 h _ he

theorem Spared.isSome_arg {p : String} {c : CallRef} {es : List Event} (h : Spared p c es) {s : Store}
    (hp : (s.arg p c).isSome) : ((s.follow es).arg p c).isSome := by
  induction es generalizing s with
  | nil => exact hp
  | cons e es ih =>
    exact ih (fun e he => h e (List.mem_cons_of_mem _ he)) (e.isSome_arg hp (h e List.mem_cons_self))

theorem Spared.of_append_left {p : String} {c : CallRef} {es es' : List Event} (h : Spared p c (es ++ es')) :
    Spared p c es :=
  fun e he => h e (List.mem_append_left _ he)

/-! ### In the middle of a call -/

/-- A script is begun from a store in the middle of a call that was made in the scope `caller`, with the argument
`e` for the parameter `p`, and in what is rendered for the body of the call nothing assigns `p` in a scope that
the call belongs to. A call that was given a block has none for the name of blocks. -/
inductive InCall (caller : Scope) (p : String) (e : Expr) (c : CallRef) {scope₁ : Scope} {β : Type} (k : Nat)
    (y : Script scope₁ β) (s : Store) : Prop where
  | intro {s₀ m args body n ls} (sound : s₀.Sound) (valid : caller.Valid s₀)
      (arg : (Store.callParams caller m args).get? p = some ⟨e, caller⟩) (free : p = bodyContent → body = none)
      (begins : c = (s₀.beginCall caller m args body).1)
      (reaches : Reaches k y s ls n (renderNodes (caller.enter c) m.body) (s₀.beginCall caller m args body).2)
      (spared : Spared p c ((renderNodes (caller.enter c) m.body).events n (s₀.beginCall caller m args body).2))

namespace InCall

variable {caller scope₁ : Scope} {p : String} {e : Expr} {c : CallRef} {β : Type} {k : Nat}
  {y : Script scope₁ β} {s : Store}

/-- What is begun in what is begun in the middle of a call is. -/
theorem trans {scope₂ : Scope} {γ : Type} {j : Nat} {z : Script scope₂ γ} {s₂ : Store} {ls : List Layer}
    (h : InCall caller p e c k y s) (hz : Reaches j z s₂ ls k y s) : InCall caller p e c j z s₂ := by
  obtain ⟨sound, valid, arg, free, begins, reaches, spared⟩ := h
  exact ⟨sound, valid, arg, free, begins, hz.trans reaches, spared⟩

/-- The parameter stands for the argument. -/
theorem lookup_eq (h : InCall caller p e c k y s) :
    s.lookup (caller.enter c) p = .argument c ⟨e, caller⟩ := by
  obtain ⟨sound, valid, arg, free, rfl, reaches, spared⟩ := h
  rename_i s₀ m args body n ls
  have hsound := sound.beginCall m args body valid
  have hvalid := Store.Valid.enter m args body valid
  have hlt := hvalid.calls _ (List.mem_cons_self ..)
  obtain ⟨hprogress, -⟩ := (Store.carried_progress _).reaches reaches ⟨.refl hsound, hvalid⟩
  have hkeeps := hprogress.keeps _ _ hlt (Store.keeps_beginCall sound)
  obtain ⟨before, after, hevents, hfollow⟩ := reaches.events
  have hbegin : (s₀.beginCall caller m args body).2.arg p (s₀.beginCall caller m args body).1 =
      some ⟨e, caller⟩ := by
    rw [Store.arg_beginCall, Store.beginCall_fst, if_pos rfl, arg]
  have hsome : (s.arg p (s₀.beginCall caller m args body).1).isSome := by
    rw [← hfollow]
    rw [hevents, List.append_assoc] at spared
    exact spared.of_append_left.isSome_arg (by rw [hbegin]; rfl)
  obtain ⟨t, ht⟩ := Option.isSome_iff_exists.1 hsome
  have harg : t = ⟨e, caller⟩ := Option.some.inj ((hkeeps.args p t ht).symm.trans arg)
  have hblock : (s.call (s₀.beginCall caller m args body).1).blockFor? p = none := by
    have hindex := congrArg CallRef.index (@Store.beginCall_fst s₀ caller m args body)
    rw [CallFrame.blockFor?, hprogress.grows.block _ hlt]
    split
    · rename_i hp
      rw [Store.block_new_call hindex, free hp]
      rfl
    · rfl
  rw [Store.lookup, Scope.enter, Store.lookupIn, hblock, show (s.call _).params.get? p = some t from ht, harg]

/-- Reading the parameter evaluates the argument in the scope of the caller. -/
theorem run_read (h : InCall caller p e c k y s) (n : Nat) :
    (Script.read p : Script (caller.enter c) Value).run (Deeper.within (n + 1)) s =
      (evalExpr caller e false).run (Deeper.within n) s := by
  show Run.read _ _ _ _ = _
  rw [Run.read_eq, h.lookup_eq]
  rfl

/-- So does a reference to it. -/
theorem run_reference (h : InCall caller p e c k y s) (n : Nat) (place : Place) (quiet lenient : Bool) :
    (evalExpr (caller.enter c) (.reference place p quiet []) lenient).run (Deeper.within (n + 1)) s =
      (evalExpr caller e false).run (Deeper.within n) s := by
  have hdefined : s.isDefined (caller.enter c) p = true := by
    rw [Store.isDefined_eq, h.lookup_eq]
    rfl
  rw [run_evalExpr_reference, hdefined, if_pos rfl, ← h.run_read, Script.run_bind]
  simp only [evalSuffixes, Script.run_pure]
  rw [bind_pure]

end InCall

end Stencil
