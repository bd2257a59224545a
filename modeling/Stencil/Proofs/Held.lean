import Stencil.Proofs.TakeBack

/-!
# What will give a name back

While an evaluation goes on, the calls that have a parameter of a name and the loops over it are to give
the name back, the latest first. `Holder.ended` is the store that they would leave if they all ended now.
An assignment of the name does not change what the name is in that store when it is `Covered`: when it is
made in the scope of the call or loop that gives it back.
-/

namespace Stencil

/-- What gives a name back when it ends: a call of a macro with a parameter of that name, made in a scope,
or a loop over it in a scope. -/
inductive Holder where
  | call (c : CallRef) (caller : Scope)
  | loop (undo : Undo) (scope : Scope)

namespace Holder

/-- The scope of a loop, or the scope of a call inside the macro. -/
def scope : Holder → Scope
  | call c caller => caller.enter c
  | loop _ scope => scope

/-- Gives the name back. -/
def release : Holder → Store → Store
  | call c _, s => s.restoreParams c
  | loop u _, s => s.undo u

/-- The store in which everything is given back. -/
def ended : List Holder → Store → Store
  | [], s => s
  | h :: hs, s => ended hs (h.release s)

/-- The calls that are to end. -/
def running : List Holder → List CallRef
  | [] => []
  | call c _ :: hs => c :: running hs
  | loop .. :: hs => running hs

/-- The holders in a loop over a variable of any name. -/
def addLoop (x y : String) (u : Undo) (scope : Scope) (hs : List Holder) : List Holder :=
  if y = x then loop u scope :: hs else hs

/-- The holders in a call with some parameters. -/
def addCall (x : String) (params : Bindings Thunk) (c : CallRef) (caller : Scope) (hs : List Holder) :
    List Holder :=
  if (params.get? x).isSome then call c caller :: hs else hs

/-- What matters: a scope, and the calls that are to end. -/
def watch (base : Scope) (hs : List Holder) : Scope :=
  ⟨running hs ++ base.calls, base.root⟩

end Holder

namespace Store

open Holder (addCall addLoop ended running watch)

/-- Whether none of the calls of a scope that matter has a parameter of a name to hide. -/
def Absent (s : Store) (x : String) (calls : List CallRef) (scope : Scope) : Prop :=
  ∀ c ∈ scope.calls, c ∈ calls → s.arg x c = none

/-- Whether a holder has hidden nothing yet: a call that has its parameter. -/
def Untouched (s : Store) (x : String) : Holder → Prop
  | .call c _ => s.lives x c = [] ∧ (s.arg x c).isSome
  | .loop .. => False

/-- Whether a holder has hidden a name in its whole scope and gives it back up to the variable. -/
def Hidden (s : Store) (x : String) (calls : List CallRef) : Holder → Prop
  | .call c caller => s.Absent x calls (caller.enter c) ∧ c.index < s.calls.size ∧
    ∃ u us, s.lives x c = u :: us ∧ u.Runs s ∧ u.root = caller.root
  | .loop u scope => s.Absent x calls scope ∧ u.Fits s x ∧ u.Runs s ∧ u.root = scope.root

/-- Whether a holder stands ready to give a name back. -/
def Ready (s : Store) (x : String) (calls : List CallRef) (h : Holder) : Prop :=
  s.Untouched x h ∨ s.Hidden x calls h

/-- Whether all holders stand ready when those before them have ended. -/
def Held (x : String) (base : Scope) : List Holder → Store → Prop
  | [], _ => True
  | h :: hs, s => s.Ready x (watch base (h :: hs)).calls h ∧ Held x base hs (h.release s)

/-- Whether an assignment of a name in a scope is given back by a holder. Where no parameter that matters
is left to hide, it is given back by a loop, and by a call that has hidden its own. A call also gives back
what is assigned in its scope, or in a scope entered from it as far as parameters that matter are
concerned. Only outside its scope, and before it has hidden its parameter, it leaves the assignment to the
next holder. -/
def Covered (s : Store) (x : String) (base scope : Scope) : List Holder → Prop
  | [] => False
  | .loop u loopScope :: hs =>
    scope.root = loopScope.root ∧ s.Absent x (watch base (.loop u loopScope :: hs)).calls scope
  | .call c caller :: hs =>
    scope.root = caller.root ∧
      ((∃ pre, scope.calls = pre ++ (caller.enter c).calls ∧
        s.Absent x (watch base (.call c caller :: hs)).calls ⟨pre, scope.root⟩) ∨
      s.arg x c = none ∧ s.Absent x (watch base (.call c caller :: hs)).calls scope ∨
      (s.arg x c).isSome ∧ c ∉ scope.calls ∧ s.Covered x base scope hs)

/-- Whether evaluation from the first store to the second leaves all holders ready, and the name as it
was once they have ended. -/
def Upholds (x : String) (base : Scope) (hs hs' : List Holder) (s s' : Store) : Prop :=
  Held x base hs' s' ∧ SameIn x base (ended hs s) (ended hs' s')

variable {s s' s'' : Store} {x y : String} {base scope caller : Scope} {h : Holder}
  {hs hs' hs'' : List Holder} {c : CallRef} {u : Undo} {v : Value} {calls : List CallRef}

theorem Upholds.trans (h : Upholds x base hs hs' s s') (h' : Upholds x base hs' hs'' s' s'') :
    Upholds x base hs hs'' s s'' :=
  ⟨h'.1, h.2.trans h'.2⟩

theorem Absent.congr (h : s.Absent x calls scope) (hsame : SameArgs x calls s s') :
    s'.Absent x calls scope := by
  intro c hc hmem
  rw [hsame.arg c hmem, h c hc hmem]

theorem Untouched.congr (hu : s.Untouched x h) (hsame : SameArgs x calls s s')
    (hc : ∀ c ∈ running [h], c ∈ calls) : s'.Untouched x h := by
  cases h with
  | call c caller =>
    have hmem : c ∈ calls := hc c (List.mem_cons_self ..)
    obtain ⟨hl, ha⟩ := hu
    exact ⟨by rw [hsame.lives c hmem, hl], by rw [hsame.arg c hmem, ha]⟩
  | loop u scope => cases hu

theorem Hidden.congr (hh : s.Hidden x calls h) (hsame : SameArgs x calls s s') (hs : s.Sound)
    (hc : ∀ c ∈ running [h], c ∈ calls) : s'.Hidden x calls h := by
  cases h with
  | call c caller =>
    have hmem : c ∈ calls := hc c (List.mem_cons_self ..)
    obtain ⟨ha, hlt, u, us, hl, hu, hroot⟩ := hh
    have hfits := fits_of_live hs u (hl ▸ List.mem_cons_self ..)
    exact ⟨ha.congr hsame, Nat.lt_of_lt_of_le hlt hsame.sizeCalls, u, us,
      by rw [hsame.lives c hmem, hl], hsame.runs hfits hu, hroot⟩
  | loop u scope =>
    obtain ⟨ha, hf, hu, hroot⟩ := hh
    exact ⟨ha.congr hsame, hsame.fits hf, hsame.runs hf hu, hroot⟩

theorem Ready.congr (hr : s.Ready x calls h) (hsame : SameArgs x calls s s') (hs : s.Sound)
    (hc : ∀ c ∈ running [h], c ∈ calls) : s'.Ready x calls h :=
  hr.imp (fun hu => hu.congr hsame hc) fun hh => hh.congr hsame hs hc

theorem Untouched.lt (hu : s.Untouched x (.call c caller)) : c.index < s.calls.size := by
  obtain ⟨t, ht⟩ := Option.isSome_iff_exists.1 hu.2
  exact lt_of_arg_eq_some ht

theorem Ready.lt (hr : s.Ready x calls (.call c caller)) : c.index < s.calls.size :=
  hr.elim (fun hu => hu.lt) fun hh => hh.2.1

theorem Ready.fits (hr : s.Ready x calls (.loop u scope)) : u.Fits s x :=
  hr.elim (fun hu => nomatch hu) fun hh => hh.2.1

theorem Untouched.sound_release (hu : s.Untouched x h) (hs : s.Sound) : (h.release s).Sound := by
  cases h with
  | call c caller => exact (progress_restoreParams hs hu.lt).sound
  | loop u scope => cases hu

theorem Ready.sound_release (hr : s.Ready x calls h) (hs : s.Sound) : (h.release s).Sound := by
  cases h with
  | call c caller => exact (progress_restoreParams hs hr.lt).sound
  | loop u scope => exact (hs.undone_undo hr.fits).sound hs

theorem watch_cons_subset {c : CallRef} (hc : c ∈ (watch base hs).calls) :
    c ∈ (watch base (h :: hs)).calls := by
  cases h with
  | call d caller => exact List.mem_cons_of_mem _ hc
  | loop u scope => exact hc

theorem SameIn.tail (hsame : SameIn x (watch base (h :: hs)) s s') : SameIn x (watch base hs) s s' :=
  hsame.mono fun _ hc => watch_cons_subset hc

theorem mem_watch_head (base : Scope) (h : Holder) (hs : List Holder) :
    ∀ c ∈ running [h], c ∈ (watch base (h :: hs)).calls := by
  intro c hc
  cases h with
  | call d caller =>
    obtain rfl := List.mem_singleton.1 hc
    exact List.mem_cons_self ..
  | loop u scope => cases hc

/-- Releasing a holder takes stores that agree to stores that agree. -/
theorem Ready.release (hr : s.Ready x (watch base (h :: hs)).calls h) (hsound : s.Sound)
    (hsound' : s'.Sound) (hsame : SameIn x (watch base (h :: hs)) s s') :
    SameIn x (watch base hs) (h.release s) (h.release s') := by
  cases h with
  | call c caller =>
    have hmem : c ∈ (watch base (.call c caller :: hs)).calls := List.mem_cons_self ..
    exact (hsame.toSameArgs.restoreParams hsound hsound' hr.lt (hsame.lives c hmem) (.inl hsame.var)).tail
  | loop u scope => exact hsame.undo hsound hr.fits

/-- In stores that agree on a name the same holders stand ready, and leave stores that agree. -/
theorem Held.congr (hK : Held x base hs s) (hsound : s.Sound) (hsound' : s'.Sound)
    (hsame : SameIn x (watch base hs) s s') : Upholds x base hs hs s s' := by
  induction hs generalizing s s' with
  | nil => exact ⟨trivial, hsame⟩
  | cons h hs ih =>
    obtain ⟨hr, hK⟩ := hK
    have hr' := hr.congr hsame.toSameArgs hsound (mem_watch_head base h hs)
    obtain ⟨hK', hend⟩ := ih hK (hr.sound_release hsound) (hr'.sound_release hsound')
      (hr.release hsound hsound' hsame)
    exact ⟨⟨hr', hK'⟩, hend⟩

/-! ### Assignments -/

theorem absent_after_assign (s : Store) (x : String) (v : Value) (calls : List CallRef)
    (scope : Scope) : (s.assign scope x v).2.Absent x calls scope := by
  intro c hc _
  rw [arg_assign, if_pos ⟨hc, rfl⟩]

/-- A holder that has hidden the name gives back an assignment that hides nothing more. -/
theorem Hidden.assign (hh : s.Hidden x (watch base (h :: hs)).calls h) (hsound : s.Sound)
    (hv : scope.Valid s) (ha : s.Absent x (watch base (h :: hs)).calls scope)
    (hroot : scope.root = h.scope.root) :
    (s.assign scope x v).2.Hidden x (watch base (h :: hs)).calls h ∧
      SameIn x (watch base hs) (h.release s) (h.release (s.assign scope x v).2) := by
  have hsame : SameArgs x (watch base (h :: hs)).calls s (s.assign scope x v).2 :=
    .assign_of_absent hsound hv.root ha
  refine ⟨hh.congr hsame hsound (mem_watch_head base h hs), ?_⟩
  -- The assignment has changed the variable of one root, which is where the holder gives it back.
  have hvar : (s.assign scope x v).2.var x base.root = s.var x base.root ∨ h.scope.root = base.root := by
    by_cases hb : base.root = scope.root
    · exact .inr (hroot.symm.trans hb.symm)
    · rw [var_assign _ _ _ _ hv.root, if_neg (by simp [hb])]
      exact .inl rfl
  cases h with
  | call c caller =>
    obtain ⟨-, hlt, u, us, hl, hu, hr⟩ := hh
    have hmem : c ∈ (watch base (.call c caller :: hs)).calls := List.mem_cons_self ..
    have hback : SameIn x (watch base (.call c caller :: hs)) (s.restoreParams c)
        ((s.assign scope x v).2.restoreParams c) :=
      hsame.restoreParams hsound (hsound.assign scope x v hv.root) hlt (hsame.lives c hmem)
        (hvar.imp id fun hb => ⟨u, us, hl, hu, hr.trans hb⟩)
    exact hback.tail
  | loop u w =>
    obtain ⟨-, hf, hu, hr⟩ := hh
    exact ⟨hsame.undo hsound hf, hsame.var_undo hf (hvar.imp id fun hb => ⟨hu, hr.trans hb⟩)⟩

variable (scope) in
/-- A call that has hidden nothing yet ends without a trace. -/
theorem Untouched.release (hu : s.Untouched x (.call c caller)) (hsound : s.Sound) :
    SameIn x scope s (s.restoreParams c) ∧ SameIn x scope (s.restoreParams c) s := by
  have h : SameIn x scope s (s.restoreParams c) := .restoreParams_of_not_live hsound hu.lt hu.1
  have hsizes := sizes_restoreParams hsound hu.lt
  exact ⟨h, h.symm hsizes.1 hsizes.2.1 hsizes.2.2⟩

/-- An assignment of a name that is covered does not change what the name is in the end. -/
theorem Held.assign (hK : Held x base hs s) (hsound : s.Sound) (hv : scope.Valid s)
    (hcov : s.Covered x base scope hs) : Upholds x base hs hs s (s.assign scope x v).2 := by
  have hsound' := hsound.assign scope x v hv.root
  induction hs with
  | nil => cases hcov
  | cons h hs ih =>
    obtain ⟨hr, hK⟩ := hK
    have hrelease := hr.sound_release hsound
    rcases hr with hu | hh
    · cases h with
      | loop u w => cases hu
      | call c caller =>
        obtain ⟨hback, hforth⟩ := hu.release (watch base hs) hsound
        obtain ⟨hK₀, -⟩ := hK.congr hrelease hsound hforth
        rcases hcov with ⟨hroot, ⟨pre, hcalls, hpre⟩ | ⟨hnone, -⟩ | ⟨-, hnot, hcov⟩⟩
        · -- The call is the first that the assignment concerns, and gives everything back.
          obtain ⟨t, ht⟩ := Option.isSome_iff_exists.1 hu.2
          obtain ⟨hsame, u, hl, hruns, hur⟩ := assign_owner (v := v) hsound hv hcalls hpre
            (mem_watch_head base (.call c caller) hs c (List.mem_cons_self ..)) ht hu.1
          have hlt : c.index < (s.assign scope x v).2.calls.size :=
            Nat.lt_of_lt_of_le (lt_of_arg_eq_some ht) (assigned_assign scope x v hv.root).grows.calls
          have hready : (s.assign scope x v).2.Hidden x (watch base (.call c caller :: hs)).calls
              (.call c caller) := by
            refine ⟨?_, hlt, u, [], hl, hruns, hur.trans hroot⟩
            intro d hd hmem
            refine absent_after_assign s x v _ scope d ?_ hmem
            rw [hcalls]
            exact List.mem_append_right _ hd
          obtain ⟨hK', hend⟩ := hK.congr hrelease
            (Ready.sound_release (.inr hready) hsound') (hforth.trans hsame.tail)
          exact ⟨⟨.inr hready, hK'⟩, hend⟩
        · exact absurd hu.2 (by simp [hnone])
        · -- The assignment passes the call by, and one of the others gives it back.
          obtain ⟨hK', hend⟩ := ih hK₀ hcov
          have hsame : SameArgs x [c] s (s.assign scope x v).2 := by
            refine .assign_of_absent hsound hv.root fun d hd hmem => ?_
            rw [List.mem_singleton.1 hmem] at hd
            exact absurd hd hnot
          have hu' : (s.assign scope x v).2.Untouched x (.call c caller) :=
            hu.congr hsame fun d hd => hd
          obtain ⟨hback', -⟩ := hu'.release (watch base hs) hsound'
          obtain ⟨hK'', hend'⟩ := hK'.congr hsound' (hu'.sound_release hsound') hback'
          have hfirst := (hK.congr hrelease hsound hforth).2
          exact ⟨⟨.inl hu', hK''⟩, (hfirst.trans hend).trans hend'⟩
    -- A holder that has hidden the name already has left nothing to hide in the scopes it covers.
    · have habsent : s.Absent x (watch base (h :: hs)).calls scope ∧ scope.root = h.scope.root := by
        cases h with
        | loop u w => exact ⟨hcov.2, hcov.1⟩
        | call c caller =>
          refine ⟨?_, hcov.1⟩
          rcases hcov with ⟨-, ⟨pre, hcalls, hpre⟩ | ⟨-, habs⟩ | ⟨hsome, -⟩⟩
          · intro d hd hmem
            rw [hcalls] at hd
            rcases List.mem_append.1 hd with hd | hd
            · exact hpre d hd hmem
            · exact hh.1 d hd hmem
          · exact habs
          · rw [hh.1 c (List.mem_cons_self ..) (List.mem_cons_self ..)] at hsome
            cases hsome
      obtain ⟨hh', hsame⟩ := hh.assign (v := v) hsound hv habsent.1 habsent.2
      obtain ⟨hK', hend⟩ := hK.congr hrelease
        (Ready.sound_release (.inr hh') hsound') hsame
      exact ⟨⟨.inr hh', hK'⟩, hend⟩

/-! ### Loops and calls -/

theorem sizeCalls_release (hr : s.Ready x calls h) (hsound : s.Sound) :
    (h.release s).calls.size = s.calls.size := by
  cases h with
  | call c caller => exact (sizes_restoreParams hsound hr.lt).2.1
  | loop u scope => exact (hsound.undone_undo hr.fits).calls

/-- The calls that are to end exist. -/
theorem Held.lt (hK : Held x base hs s) (hsound : s.Sound) :
    ∀ c ∈ running hs, c.index < s.calls.size := by
  induction hs generalizing s with
  | nil =>
    intro c hc
    cases hc
  | cons h hs ih =>
    intro c hc
    obtain ⟨hr, hK⟩ := hK
    have hrest : c ∈ running hs → c.index < s.calls.size := fun hc => by
      rw [← sizeCalls_release hr hsound]
      exact ih hK (hr.sound_release hsound) c hc
    cases h with
    | loop u scope => exact hrest hc
    | call d caller =>
      rcases List.mem_cons.1 hc with rfl | hc
      · exact hr.lt
      · exact hrest hc

/-- The assignment with which a loop begins. -/
theorem Held.beginLoop (hK : Held x base hs s) (hsound : s.Sound) (hv : scope.Valid s) (y : String)
    (v : Value) : Upholds x base hs (addLoop x y (s.assign scope y v).1 scope hs) s
      (s.assign scope y v).2 := by
  have hsound' := hsound.assign scope y v hv.root
  rw [addLoop]
  split
  · rename_i hyx
    subst hyx
    -- If the loop ended now, its assignment would be taken back at once.
    have hready : (s.assign scope y v).2.Hidden y
        (watch base (.loop (s.assign scope y v).1 scope :: hs)).calls
        (.loop (s.assign scope y v).1 scope) :=
      ⟨absent_after_assign s y v _ scope, fits_assign scope y v hv.root, runs_assignIn hsound hv.root,
        root_assign⟩
    obtain ⟨hK', hend⟩ := hK.congr hsound (Ready.sound_release (.inr hready) hsound')
      (.undo_assign hsound hv.root)
    exact ⟨⟨.inr hready, hK'⟩, hend⟩
  · rename_i hyx
    exact hK.congr hsound hsound' (.assign_of_ne hsound hv.root hyx)

/-- What a loop takes back when it ends. -/
theorem Held.endLoop (hK : Held x base (addLoop x y u scope hs) s) (hsound : s.Sound)
    (hf : u.Fits s y) : Upholds x base (addLoop x y u scope hs) hs s (s.undo u) := by
  rw [addLoop] at hK ⊢
  split at hK
  · rename_i hyx
    rw [if_pos hyx]
    exact ⟨hK.2, .refl x base _⟩
  · rename_i hyx
    rw [if_neg hyx]
    exact hK.congr hsound ((hsound.undone_undo hf).sound hsound) (.undo_of_ne hsound hf hyx)

/-- The calls that matter exist. -/
theorem Held.lt_watch (hK : Held x base hs s) (hsound : s.Sound)
    (hbase : ∀ c ∈ base.calls, c.index < s.calls.size) :
    ∀ c ∈ (watch base hs).calls, c.index < s.calls.size := by
  intro c hc
  rcases List.mem_append.1 hc with hc | hc
  · exact hK.lt hsound c hc
  · exact hbase c hc

theorem Held.beginCall (hK : Held x base hs s) (hsound : s.Sound) (hv : scope.Valid s)
    (hbase : ∀ c ∈ base.calls, c.index < s.calls.size) (m : MacroDef) (args : List Expr)
    (body : Option (List Node)) :
    Upholds x base hs (addCall x (callParams scope m args) (s.beginCall scope m args body).1 scope hs) s
      (s.beginCall scope m args body).2 := by
  have hsound' := hsound.beginCall m args body hv
  have hbegin : SameIn x (watch base hs) s (s.beginCall scope m args body).2 :=
    .beginCall (hK.lt_watch hsound hbase)
  rw [addCall]
  split
  · rename_i hx
    have hu : (s.beginCall scope m args body).2.Untouched x
        (.call (s.beginCall scope m args body).1 scope) := by
      rw [beginCall_fst]
      refine ⟨?_, ?_⟩
      · rw [lives, (call_beginCall _).2, if_pos rfl, List.filter_nil]
      · rw [arg_beginCall, if_pos rfl]
        exact hx
    obtain ⟨hK', hend⟩ := hK.congr hsound (hu.sound_release hsound')
      (hbegin.trans (hu.release _ hsound').1)
    exact ⟨⟨.inl hu, hK'⟩, hend⟩
  · exact hK.congr hsound hsound' hbegin

/-- The end of a call, which has something to give back only of its own parameters. -/
theorem Held.endCall {params : Bindings Thunk} (hK : Held x base (addCall x params c caller hs) s)
    (hsound : s.Sound) (hlt : c.index < s.calls.size) (hkeeps : s.Keeps c params) :
    Upholds x base (addCall x params c caller hs) hs s (s.restoreParams c) := by
  rw [addCall] at hK ⊢
  split at hK
  · rename_i hx
    rw [if_pos hx]
    exact ⟨hK.2, .refl x base _⟩
  · rename_i hx
    rw [if_neg hx]
    -- The undos of a call are of its own parameters, and the name is none of them.
    have hl : s.lives x c = [] := by
      refine List.eq_nil_iff_forall_not_mem.2 fun u hu => ?_
      have hf := fits_of_live hsound u hu
      obtain ⟨k, inner, rfl, hkc, -⟩ := hsound.hidden c u (List.mem_filter.1 hu).1
      have hp := hkeeps.shadows k hf.1 hkc
      rw [hf.2.1] at hp
      exact hx (by rw [hp]; rfl)
    exact hK.congr hsound (progress_restoreParams hsound hlt).sound
      (.restoreParams_of_not_live hsound hlt hl)

end Store

end Stencil
