import Stencil.Proofs.TakeBack

/-!
# Taking back assignments in reverse order

Assignments are made through any contexts of a chain of calls, and what takes them back is kept. Carrying
that out, the latest assignment first, leads back: every name is in every context what it was, and what the
calls are still to give back is what they were to give back before. So a call that ends later ends as if
nothing had been assigned. The induction is on the assignments: the latest one is taken back in a store that
agrees with the one it was made in, and agreement on a name is kept by undos, `SameIn.undo`.
-/

namespace Stencil

/-- The context of a chain that is so many calls further out. -/
def Scope.outer (scope : Scope) (depth : Nat) : Scope :=
  ⟨scope.calls.drop depth, scope.root⟩

/-- An assignment through a context of a chain. -/
structure Assignment where
  depth : Nat
  name : String
  value : Value

namespace Store

/-- Carries out assignments through the contexts of a chain, and gives what takes them back, the latest
first. -/
def assignAll (scope : Scope) : List Assignment → Store → List Undo × Store
  | [], s => ([], s)
  | a :: as, s =>
    let (u, s) := s.assign (scope.outer a.depth) a.name a.value
    let (us, s) := assignAll scope as s
    (us ++ [u], s)

/-- Carries out assignments through the contexts of a chain, and takes them back in reverse order. -/
def rewind (scope : Scope) (as : List Assignment) (s : Store) : Store :=
  undoAll (assignAll scope as s).1 (assignAll scope as s).2

/-- Gives calls in a row their parameters again. -/
def restoreAll (cs : List CallRef) (s : Store) : Store :=
  cs.foldl restoreParams s

/-- Whether a store is as good as another one for every name: now, in all contexts, and for what is still to
be given back. -/
structure AsGood (s s' : Store) : Prop where
  sound : s'.Sound
  block : ∀ c, c.index < s.calls.size → (s'.call c).block = (s.call c).block
  names : ∀ x scope, SameIn x scope s s'

/-- Whether contexts show the same in two stores: the same arguments and the same variables, and every name
stands for the same or for nothing in both. -/
structure ShowsAs (s s' : Store) : Prop where
  arg : ∀ c x, s'.arg x c = s.arg x c
  var : ∀ r x, s'.var x r = s.var x r
  lookup : ∀ scope : Scope, (∀ c ∈ scope.calls, c.index < s.calls.size) →
    ∀ x, s'.lookup scope x = s.lookup scope x ∧ s'.isDefined scope x = s.isDefined scope x

variable {s s' : Store} {x : String} {scope : Scope} {c : CallRef}

theorem rewind_cons (a : Assignment) (as : List Assignment) :
    rewind scope (a :: as) s =
      undo (s.assign (scope.outer a.depth) a.name a.value).1
        (rewind scope as (s.assign (scope.outer a.depth) a.name a.value).2) := by
  simp [rewind, assignAll, undoAll]

namespace AsGood

theorem refl (hs : s.Sound) : AsGood s s :=
  ⟨hs, fun _ _ => rfl, fun x scope => .refl x scope s⟩

theorem showsAs (h : AsGood s s') : ShowsAs s s' := by
  have harg (c : CallRef) (x : String) : s'.arg x c = s.arg x c :=
    (h.names x ⟨[c], default⟩).arg c (List.mem_singleton_self c)
  have hvar (r : RootRef) (x : String) : s'.var x r = s.var x r := (h.names x ⟨[], r⟩).var
  refine ⟨harg, hvar, fun scope hscope x => ?_⟩
  have hlookup : s'.lookup scope x = s.lookup scope x := by
    refine lookupIn_congr (fun c hc => ⟨harg c x, ?_⟩) (hvar scope.root x)
    rw [CallFrame.blockFor?, CallFrame.blockFor?, h.block c (hscope c hc)]
  exact ⟨hlookup, by rw [isDefined_eq, isDefined_eq, hlookup]⟩

theorem lives (h : AsGood s s') (x : String) (c : CallRef) : s'.lives x c = s.lives x c :=
  (h.names x ⟨[c], default⟩).lives c (List.mem_singleton_self c)

theorem lt_sizeCalls (h : AsGood s s') (hc : c.index < s.calls.size) : c.index < s'.calls.size :=
  Nat.lt_of_lt_of_le hc (h.names "" default).sizeCalls

/-- The latest assignment is taken back in a store that is as good as the one after it. -/
theorem undo_assign (hs : s.Sound) (hr : scope.root.index < s.roots.size) {v : Value}
    (h : AsGood (s.assign scope x v).2 s') : AsGood s (undo (s.assign scope x v).1 s') := by
  obtain ⟨hassigned, hfits⟩ := assigned_assignIn (s := s) (x := x) (v := v) scope.calls hr
  have hsound : (s.assign scope x v).2.Sound := hs.assign scope x v hr
  have hfits' : (s.assign scope x v).1.Fits s' x := (h.names x scope).fits hfits
  have hundone := h.sound.undone_undo hfits'
  refine ⟨hundone.sound h.sound, fun c hc => ?_, fun y other => ?_⟩
  · have hlt : c.index < (s.assign scope x v).2.calls.size := Nat.lt_of_lt_of_le hc hassigned.grows.calls
    rw [hundone.grows.block c (h.lt_sizeCalls hlt), h.block c hlt]
    exact hassigned.grows.block c hc
  · by_cases hy : y = x
    · subst hy
      exact (SameIn.undo_assign hs hr).trans ((h.names y other).undo hsound hfits)
    · have hassign : SameIn y other s (s.assign scope x v).2 := .assign_of_ne hs hr (Ne.symm hy)
      exact (hassign.trans (h.names y other)).trans (.undo_of_ne h.sound hfits' (Ne.symm hy))

/-- Assignments that are taken back in reverse order leave no trace. -/
theorem rewind (hs : s.Sound) (hr : scope.root.index < s.roots.size) (as : List Assignment) :
    AsGood s (rewind scope as s) := by
  induction as generalizing s with
  | nil => exact .refl hs
  | cons a as ih =>
    have hroot : (scope.outer a.depth).root.index < s.roots.size := hr
    have hsound := hs.assign (scope.outer a.depth) a.name a.value hroot
    have hsizes : (s.assign (scope.outer a.depth) a.name a.value).2.roots.size = s.roots.size :=
      size_roots_assignIn s scope.root a.name a.value _
    rw [rewind_cons]
    exact undo_assign hs hroot (ih hsound (hsizes ▸ hr))

theorem block_restoreParams (hs : s.Sound) (hc : c.index < s.calls.size) {d : CallRef}
    (hd : d.index < s.calls.size) : ((s.restoreParams c).call d).block = (s.call d).block := by
  have hforget : s.Grows (s.forget c) := grows_forget
  have hgrows := hforget.trans (progress_restoreParams hs hc).grows
  exact hgrows.block d hd

/-- A call that ends gives the same back. -/
theorem restoreParams (h : AsGood s s') (hs : s.Sound) (hc : c.index < s.calls.size) :
    AsGood (s.restoreParams c) (s'.restoreParams c) := by
  have hc' := h.lt_sizeCalls hc
  refine ⟨(progress_restoreParams h.sound hc').sound, fun d hd => ?_, fun x scope => ?_⟩
  · rw [(sizes_restoreParams hs hc).2.1] at hd
    rw [block_restoreParams h.sound hc' (h.lt_sizeCalls hd), block_restoreParams hs hc hd, h.block d hd]
  · have hnames := h.names x scope
    exact hnames.toSameArgs.restoreParams hs h.sound hc (h.lives x c) (.inl hnames.var)

/-- So do calls that end in a row. -/
theorem restoreAll (h : AsGood s s') (hs : s.Sound) {cs : List CallRef}
    (hcs : ∀ c ∈ cs, c.index < s.calls.size) : AsGood (restoreAll cs s) (restoreAll cs s') := by
  induction cs generalizing s s' with
  | nil => exact h
  | cons c cs ih =>
    have hc := hcs c (List.mem_cons_self ..)
    refine ih (h.restoreParams hs hc) (progress_restoreParams hs hc).sound fun d hd => ?_
    rw [(sizes_restoreParams hs hc).2.1]
    exact hcs d (List.mem_cons_of_mem _ hd)

/-- A call that ends leaves a name alone that it has not to give back. -/
theorem restoreParams_of_not_live (h : AsGood s s') (hc : c.index < s.calls.size) (hx : s.lives x c = []) :
    (∀ d, (s'.restoreParams c).arg x d = s.arg x d) ∧ ∀ r, (s'.restoreParams c).var x r = s.var x r := by
  have hend (scope : Scope) : SameIn x scope s (s'.restoreParams c) :=
    (h.names x scope).trans (.restoreParams_of_not_live h.sound (h.lt_sizeCalls hc) (by rw [h.lives, hx]))
  exact ⟨fun d => (hend ⟨[d], default⟩).arg d (List.mem_singleton_self d), fun r => (hend ⟨[], r⟩).var⟩

end AsGood

end Store

open Store (AsGood ShowsAs rewind restoreAll)

/-! ### Chains of contexts -/

/-- What contexts come to over a plain one, with what takes assignments back: calls are begun over a context,
a name is assigned through a context of the chain, an assignment is taken back, also again, a call of the
chain gives its parameters back, and the innermost context is left. -/
inductive Chain : Scope → List Undo → Store → Prop
  | plain (f : RootFrame) : Chain (Store.enterRoot {} f).1 [] (Store.enterRoot {} f).2
  | call {scope : Scope} {us : List Undo} {s : Store} (h : Chain scope us s) (m : MacroDef) (args : List Expr)
      (body : Option (List Node)) :
      Chain (scope.enter (s.beginCall scope m args body).1) us (s.beginCall scope m args body).2
  | assign {scope : Scope} {us : List Undo} {s : Store} (h : Chain scope us s) (depth : Nat) (x : String)
      (v : Value) :
      Chain scope ((s.assign (scope.outer depth) x v).1 :: us) (s.assign (scope.outer depth) x v).2
  | undo {scope : Scope} {us : List Undo} {s : Store} {u : Undo} (h : Chain scope us s) (hu : u ∈ us) :
      Chain scope us (Store.undo u s)
  | restore {scope : Scope} {us : List Undo} {s : Store} {c : CallRef} (h : Chain scope us s)
      (hc : c ∈ scope.calls) : Chain scope us (s.restoreParams c)
  | leave {scope : Scope} {us : List Undo} {s : Store} {c : CallRef} (h : Chain (scope.enter c) us s) :
      Chain scope us s

/-- Whatever is done with the contexts of a chain, they exist, and all that is kept to be given back hangs
together. -/
theorem Chain.sound {scope : Scope} {us : List Undo} {s : Store} (h : Chain scope us s) :
    s.Sound ∧ scope.Valid s ∧ ∀ u ∈ us, ∃ x, u.Fits s x := by
  induction h with
  | plain f =>
    obtain ⟨hs, hv⟩ := Store.sound_empty.enterRoot f
    exact ⟨hs, hv, nofun⟩
  | @call scope us s _ m args body ih =>
    obtain ⟨hs, hv, hus⟩ := ih
    refine ⟨hs.beginCall m args body hv, Store.Valid.enter m args body hv, fun u hu => ?_⟩
    obtain ⟨x, hx⟩ := hus u hu
    exact ⟨x, hx.mono (Store.grows_beginCall s scope m args body)⟩
  | @assign scope us s _ depth x v ih =>
    obtain ⟨hs, hv, hus⟩ := ih
    obtain ⟨hassigned, hfits⟩ :=
      Store.assigned_assignIn (s := s) (x := x) (v := v) (scope.outer depth).calls hv.root
    refine ⟨hs.assign (scope.outer depth) x v hv.root, hv.mono hassigned.grows, fun u hu => ?_⟩
    rcases List.mem_cons.1 hu with rfl | hu
    · exact ⟨x, hfits⟩
    · obtain ⟨y, hy⟩ := hus u hu
      exact ⟨y, hy.mono hassigned.grows⟩
  | @undo scope us s u _ hu ih =>
    obtain ⟨hs, hv, hus⟩ := ih
    obtain ⟨x, hx⟩ := hus u hu
    have hundone := hs.undone_undo hx
    refine ⟨hundone.sound hs, hv.mono hundone.grows, fun u' hu' => ?_⟩
    obtain ⟨y, hy⟩ := hus u' hu'
    exact ⟨y, hy.mono hundone.grows⟩
  | @restore scope us s c _ hc ih =>
    obtain ⟨hs, hv, hus⟩ := ih
    have hend := Store.progress_restoreParams hs (hv.calls c hc)
    have hforget : s.Grows (s.forget c) := Store.grows_forget
    have hgrows := hforget.trans hend.grows
    refine ⟨hend.sound, hv.mono hgrows, fun u hu => ?_⟩
    obtain ⟨x, hx⟩ := hus u hu
    exact ⟨x, hx.mono hgrows⟩
  | @leave scope us s c _ ih =>
    obtain ⟨hs, hv, hus⟩ := ih
    refine ⟨hs, ⟨hv.root, (List.nodup_cons.1 hv.nodup).2, fun d hd => ?_⟩, hus⟩
    exact hv.calls d (List.mem_cons_of_mem c hd)

/-- Assignments through the contexts of a chain, taken back in reverse order, bring every context back to
what it showed before. Calls that give their parameters back after that, in any order, come to what they
would have come to without the assignments; and a name that a call had not to give back before the
assignments stays what it was before them. -/
theorem rewind_restores (s : Store) (scope : Scope) (as : List Assignment) (hs : s.Sound)
    (hv : scope.Valid s) :
    ShowsAs s (rewind scope as s) ∧
      (∀ cs : List CallRef, (∀ c ∈ cs, c.index < s.calls.size) →
        ShowsAs (restoreAll cs s) (restoreAll cs (rewind scope as s))) ∧
      ∀ c : CallRef, c.index < s.calls.size → ∀ x, s.lives x c = [] →
        (∀ d, ((rewind scope as s).restoreParams c).arg x d = s.arg x d) ∧
          ∀ r, ((rewind scope as s).restoreParams c).var x r = s.var x r := by
  have hback : AsGood s (rewind scope as s) := .rewind hs hv.root as
  refine ⟨hback.showsAs, fun cs hcs => ?_, fun c hc x hx => ?_⟩
  · exact (hback.restoreAll hs hcs).showsAs
  · exact hback.restoreParams_of_not_live hc hx

/-- Two calls have parameters of one name, and another one of the inner call is hidden. Both contexts assign
to the names, and what they assign is taken back. -/
theorem rewind_restores_nested :
    let place : Place := ⟨none, 1⟩
    let one : Expr := .literal place (.int 1)
    let start := ({} : Store).enterRoot ⟨[("q", .null)], [], .standard, ⟨0⟩⟩
    let outer := start.2.beginCall start.1 ⟨place, "m", ["q"], []⟩ [one] none
    let inner := outer.2.beginCall (start.1.enter outer.1) ⟨place, "n", ["p", "q"], []⟩ [one, one] none
    let scope := (start.1.enter outer.1).enter inner.1
    let s := (inner.2.assign scope "p" (.int 3)).2
    let as : List Assignment := [⟨0, "q", .int 4⟩, ⟨1, "p", .int 5⟩, ⟨1, "q", .int 6⟩, ⟨2, "q", .int 7⟩]
    s.Sound ∧ scope.Valid s ∧ outer.1.index < s.calls.size ∧ s.lives "q" outer.1 = [] ∧
      (rewind scope as s).var "p" scope.root = some (.int 3) ∧
      ((rewind scope as s).restoreParams outer.1).var "q" scope.root = some .null := by
  intro place one start outer inner scope s as
  have hchain : Chain scope _ s :=
    (((Chain.plain _).call ⟨place, "m", ["q"], []⟩ [one] none).call ⟨place, "n", ["p", "q"], []⟩ [one, one]
      none).assign 0 "p" (.int 3)
  obtain ⟨hs, hv, -⟩ := hchain.sound
  have hnone : s.lives "q" outer.1 = [] := rfl
  have hthree : s.var "p" scope.root = some (.int 3) := rfl
  have hnull : s.var "q" scope.root = some .null := rfl
  have hlt : outer.1.index < s.calls.size := by decide
  obtain ⟨hback, -, hend⟩ := rewind_restores s scope as hs hv
  refine ⟨hs, hv, hlt, hnone, ?_, ?_⟩
  · rw [hback.var, hthree]
  · rw [(hend outer.1 hlt "q" hnone).2, hnull]

/-- A parameter that was hidden before the assignments is given back after them, and with it the variable
that its assignment had made is gone. -/
theorem restore_changes_assigned :
    ¬∀ (scope : Scope) (us : List Undo) (s : Store), Chain scope us s → ∀ (as : List Assignment),
      ∀ a ∈ as, ∀ c ∈ scope.calls, ((rewind scope as s).restoreParams c).var a.name scope.root =
        (rewind scope as s).var a.name scope.root := by
  intro h
  let one : Expr := .literal ⟨none, 1⟩ (.int 1)
  let start := ({} : Store).enterRoot ⟨[], [], .standard, ⟨0⟩⟩
  let call := start.2.beginCall start.1 ⟨⟨none, 1⟩, "m", ["p"], []⟩ [one] none
  let scope := start.1.enter call.1
  let s := (call.2.assign scope "p" (.int 5)).2
  have hchain : Chain scope _ s :=
    ((Chain.plain _).call ⟨⟨none, 1⟩, "m", ["p"], []⟩ [one] none).assign 0 "p" (.int 5)
  have hbefore : ((rewind scope [⟨0, "p", .int 6⟩] s).var "p" scope.root).isSome = true := by decide +kernel
  have hafter : (((rewind scope [⟨0, "p", .int 6⟩] s).restoreParams call.1).var "p" scope.root).isSome =
      false := by decide +kernel
  have hsame := h scope _ s hchain [⟨0, "p", .int 6⟩] ⟨0, "p", .int 6⟩ (List.mem_singleton_self _) call.1
    (List.mem_singleton_self _)
  rw [hsame, hbefore] at hafter
  cases hafter

end Stencil
