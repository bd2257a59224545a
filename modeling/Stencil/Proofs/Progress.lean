import Stencil.Proofs.Call

/-!
# Evaluation keeps everything

Whatever a script does and however it ends, it leaves a sound store in which every call that was there
has its parameters still: `Script.progress`. A macro call that is over therefore has the very parameters
that it began with: `Script.arg_after_call`.
-/

namespace Stencil

namespace Store

variable {s : Store} {scope : Scope}

theorem Progress.written (hs : s.Sound) (hv : scope.Valid s) (text : String) :
    Progress s { s with written := text } :=
  .of_sameFrames hs hv (.of_eq rfl rfl rfl rfl)

theorem Progress.addMacros (hs : s.Sound) (r : RootRef) (ms : List MacroDef) :
    Progress s (s.addMacros r ms) := by
  have hg : s.Grows (s.addMacros r ms) := grows_setRoot ..
  refine ⟨hs.step hg (fun _ _ _ ht => .inl ht) ?_ (fun _ _ hu => .inl hu) (fun _ _ hk => .inl hk), hg,
    fun _ _ _ hk => ⟨hk.args, hk.shadows, hk.hidden⟩⟩
  intro k hge hlt
  exact absurd hlt (Nat.not_lt.2 hge)

/-- The store in which nothing has happened is sound. -/
theorem sound_empty : Sound {} := by
  refine ⟨?_, ?_, ?_, ?_⟩
  · intro c y t ht
    exact absurd (lt_of_arg_eq_some ht) (Nat.not_lt_zero _)
  · intro h hlt
    exact absurd hlt (Nat.not_lt_zero _)
  · intro c u hu
    cases hu
  · intro k b hb
    simp at hb

/-- An evaluation begins in a sound store, in a scope that exists. -/
theorem Sound.enterRoot (hs : s.Sound) (f : RootFrame) :
    (s.enterRoot f).2.Sound ∧ (s.enterRoot f).1.Valid (s.enterRoot f).2 := by
  have hsize : (s.enterRoot f).2.roots.size = s.roots.size + 1 := Heap.size_alloc ..
  have hg : s.Grows (s.enterRoot f).2 :=
    .of_shadows_eq (by omega) (Nat.le_refl _) rfl fun _ _ => rfl
  refine ⟨hs.step hg (fun _ _ _ ht => .inl ht) ?_ (fun _ _ hu => .inl hu) (fun _ _ hk => .inl hk), ?_⟩
  · intro k hge hlt
    exact absurd hlt (Nat.not_lt.2 hge)
  · exact ⟨Nat.lt_of_lt_of_eq (Nat.lt_succ_self _) hsize.symm, List.nodup_nil, fun _ hc => nomatch hc⟩

/-- A scope that exists wherever another one does. -/
theorem valid_default (hv : scope.Valid s) : (default : Scope).Valid s :=
  ⟨Nat.zero_lt_of_lt hv.root, List.nodup_nil, fun _ hc => nomatch hc⟩

/-- The scope of a block exists, whatever the number of the block. -/
theorem Sound.valid_block (hs : s.Sound) (hv : scope.Valid s) (b : BlockRef) :
    (s.block b).scope.Valid s := by
  rw [block, Std.TreeMap.getD_eq_getD_getElem?]
  cases hb : s.blocks[b.id]? with
  | none => exact valid_default hv
  | some b' => exact hs.blocks _ _ hb

/-- The scope of an argument that a name stands for exists. -/
theorem Sound.valid_argument (hs : s.Sound) {root : RootRef} {x : String} {calls : List CallRef}
    {c : CallRef} {t : Thunk} (h : s.lookupIn root x calls = .argument c t) : t.scope.Valid s := by
  induction calls with
  | nil => cases h
  | cons d cs ih =>
    rw [lookupIn] at h
    split at h
    · cases h
    · rename_i t' _ ht
      cases h
      exact hs.params _ _ _ ht
    · exact ih h

/-- A whole call keeps what its body keeps. -/
theorem Progress.endCall {m : MacroDef} {args : List Expr} {body : Option (List Node)} {s' : Store}
    (hs : s.Sound) (hv : scope.Valid s) (h : Progress (s.beginCall scope m args body).2 s') :
    Progress s (s'.restoreParams (s.beginCall scope m args body).1) := by
  have hbegin := Progress.beginCall m args body hs hv
  have hlt : (s.beginCall scope m args body).1.index < s'.calls.size := by
    have := h.grows.calls
    rw [size_calls_beginCall] at this
    rw [beginCall_fst]
    exact this
  have hend := progress_restoreParams h.sound hlt
  refine ⟨hend.sound, (hbegin.grows.trans h.grows).trans (grows_forget.trans hend.grows), ?_⟩
  intro d params hd hk
  have hd' := Nat.lt_of_lt_of_le hd hbegin.grows.calls
  refine (h.keeps d params hd' (hbegin.keeps d params hd hk)).restoreParams h.sound hlt ?_
    (Nat.lt_of_lt_of_le hd' h.grows.calls)
  rw [beginCall_fst]
  rintro rfl
  exact absurd hd (Nat.lt_irrefl _)

variable {x : String} {source : Source}

/-- The store of a loop that has its variable and its state, and is still to give the state its name. -/
def midLoop (s : Store) (scope : Scope) (x : String) (source : Source) : Store :=
  { (s.assign scope x .null).2 with
    loops := (s.assign scope x .null).2.loops.alloc ⟨source, none, -1⟩ }

theorem beginLoop_undoVar :
    (s.beginLoop scope x source).2.1 = (s.assign scope x .null).1 := rfl

theorem beginLoop_rest :
    (s.beginLoop scope x source).2.2 =
      (s.midLoop scope x source).assign scope loopVar (.loop (s.beginLoop scope x source).1) := rfl

variable (s scope x source) in
theorem sameFrames_midLoop :
    SameFrames scope (s.assign scope x .null).2 (s.midLoop scope x source) :=
  .of_eq rfl rfl rfl rfl

variable (x source) in
theorem Progress.midLoop (hs : s.Sound) (hv : scope.Valid s) :
    Progress s (s.midLoop scope x source) := by
  have h := Progress.assign hs scope x .null hv.root
  exact h.trans (.of_sameFrames h.sound (hv.mono h.grows) (sameFrames_midLoop s scope x source))

variable (x source) in
theorem Progress.beginLoop (hs : s.Sound) (hv : scope.Valid s) :
    Progress s (s.beginLoop scope x source).2.2.2 := by
  have h := Progress.midLoop x source hs hv
  rw [beginLoop_rest]
  exact h.trans (.assign h.sound scope loopVar _ (hv.mono h.grows).root)

variable (x source) in
theorem fits_undoVar (hs : s.Sound) (hv : scope.Valid s) :
    (s.beginLoop scope x source).2.1.Fits (s.beginLoop scope x source).2.2.2 x := by
  have h := Progress.midLoop x source hs hv
  have hf : (s.assign scope x .null).1.Fits (s.midLoop scope x source) x :=
    (fits_assign scope x .null hv.root).mono (.of_shadows_eq (Nat.le_refl _) (Nat.le_refl _) rfl fun _ _ => rfl)
  rw [beginLoop_undoVar, beginLoop_rest]
  exact hf.mono (Progress.assign h.sound scope loopVar _ (hv.mono h.grows).root).grows

variable (x source) in
theorem fits_undoLoop (hs : s.Sound) (hv : scope.Valid s) :
    (s.beginLoop scope x source).2.2.1.Fits (s.beginLoop scope x source).2.2.2 loopVar := by
  have h := Progress.midLoop x source hs hv
  rw [beginLoop_rest]
  exact fits_assign scope loopVar _ (hv.mono h.grows).root

end Store

namespace Run

open Store (Progress)

variable {α β : Type} {s : Store} {scope : Scope}

theorem progress_bind {x : Run β} {f : β → Run α} (hx : Progress s (x.after s))
    (hf : ∀ b, Progress (x.after s) ((f b).after (x.after s))) :
    Progress s ((x >>= f).after s) := by
  rw [after] at hx hf
  rw [after_bind]
  cases he : x s with
  | ok b s₁ =>
    rw [he] at hx hf
    exact hx.trans (hf b)
  | error h s₁ =>
    rw [he] at hx
    exact hx

theorem progress_iterate {x : String} {r : LoopRef} {body : Run Unit}
    (hbody : ∀ s : Store, s.Sound → scope.Valid s → Progress s (body.after s)) (n : Nat)
    (hs : s.Sound) (hv : scope.Valid s) : Progress s ((iterate scope x r body n).after s) := by
  induction n generalizing s with
  | zero => exact .refl hs
  | succ n ih =>
    have hnext : Progress s ((liftM (loopNext r) : Run (Option Value)).after s) :=
      .of_sameFrames hs hv (Apart.toRun (loopNext r) s)
    refine progress_bind hnext fun v => ?_
    cases v with
    | none => exact .refl hnext.sound
    | some v =>
      have hassign := Progress.assign hnext.sound scope x v (hv.mono hnext.grows).root
      have hv' := (hv.mono hnext.grows).mono hassign.grows
      refine progress_bind hassign fun _ => ?_
      have hpass := hbody _ hassign.sound hv'
      exact progress_bind hpass fun _ => ih hpass.sound (hv'.mono hpass.grows)

end Run

namespace Script

open Store (Progress)

variable {α : Type} {s : Store} {scope : Scope}

/-- A script leaves a sound store, in which nothing has gone away and every call has its parameters
still, when evaluation one level deeper does. -/
theorem progress_step {n : Nat}
    (ih : ∀ k, n = k + 1 → ∀ {s : Store} {scope : Scope} {β : Type} (y : Script scope β), s.Sound →
      scope.Valid s → Progress s ((y.run (Deeper.within k)).after s))
    (y : Script scope α) (hs : s.Sound) (hv : scope.Valid s) :
    Progress s ((y.run (Deeper.within n)).after s) := by
  have hrender : ∀ {s : Store} {scope : Scope} (nodes : List Node), s.Sound → scope.Valid s →
      Progress s (((Deeper.within n).render scope nodes).after s) := by
    intro s scope nodes hs hv
    cases n with
    | zero => exact .refl hs
    | succ k => exact ih k rfl (renderNodes scope nodes) hs hv
  have hcapture : ∀ {s : Store} {scope : Scope} (y : Run Unit), s.Sound → scope.Valid s →
      (∀ {s : Store}, s.Sound → scope.Valid s → Progress s (y.after s)) →
      Progress s ((Run.capture y).after s) := by
    intro s scope y hs hv hy
    rw [Run.after_capture]
    have h := Progress.written hs hv ""
    have h' := hy h.sound (hv.mono h.grows)
    exact (h.trans h').trans (.written h'.sound ((hv.mono h.grows).mono h'.grows) _)
  induction y generalizing s with
  | done a => exact .refl hs
  | andThen x f ihx ihf =>
    have hx := ihx hs hv
    exact Run.progress_bind hx fun b => ihf b hx.sound (hv.mono hx.grows)
  | act a => exact .of_sameFrames hs hv (a.apart _ scope s)
  | leave place loopOnly => exact .refl hs
  | read x =>
    show Progress s ((Run.read (Deeper.within n) scope x).after s)
    rw [Run.after, Run.read_eq, ← Run.after]
    cases hb : s.lookup scope x with
    | block b => exact .refl hs
    | stored v => exact .refl hs
    | argument c t =>
      cases n with
      | zero => exact .refl hs
      | succ k => exact ih k rfl (evalExpr t.scope t.expr false) hs (hs.valid_argument hb)
  | assign x v => exact .assign hs scope x v hv.root
  | capture x ihx => exact hcapture _ hs hv fun hs hv => ihx hs hv
  | rethrow f x ihx =>
    rw [run, Run.after_mapFailure]
    exact ihx hs hv
  | loop x source body ihb =>
    rw [run, Run.after_forEach]
    have hbegin := Progress.beginLoop x source hs hv
    have hpasses := Run.progress_iterate (x := x) (r := (s.beginLoop scope x source).1)
      (fun s hs hv => ihb (s := s) hs hv) n hbegin.sound (hv.mono hbegin.grows)
    have hloop := Progress.undo hpasses.sound
      ((Store.fits_undoLoop x source hs hv).mono hpasses.grows)
    have hvar := Progress.undo hloop.sound
      (((Store.fits_undoVar x source hs hv).mono hpasses.grows).mono hloop.grows)
    exact ((hbegin.trans hpasses).trans hloop).trans hvar
  | call m args body =>
    rw [run, Run.after_renderMacro]
    have hbegin := Progress.beginCall m args body hs hv
    have hbody := hrender m.body hbegin.sound (Store.Valid.enter _ _ _ hv)
    exact .endCall hs hv hbody
  | template t =>
    rw [run, Run.after_renderTemplate]
    have hmacros := Progress.addMacros hs scope.root t.macros
    exact hmacros.trans (hrender _ hmacros.sound (hv.mono hmacros.grows))
  | block b => exact hcapture _ hs (hs.valid_block hv b) fun hs hv => hrender _ hs hv
  | text v =>
    cases n with
    | zero => exact .refl hs
    | succ k => exact ih k rfl (textOf v) hs (Store.valid_default hv)

/-- Whatever a script does and however it ends, it leaves a sound store, in which nothing has gone away
and every call that was there has its parameters still. -/
theorem progress (n : Nat) (y : Script scope α) (hs : s.Sound) (hv : scope.Valid s) :
    Progress s ((y.run (Deeper.within n)).after s) := by
  induction n generalizing s scope α with
  | zero => exact y.progress_step (fun k h => absurd h (Nat.zero_ne_add_one k)) hs hv
  | succ n ih =>
    refine y.progress_step (fun k h => ?_) hs hv
    cases h
    exact ih

/-- Rendering one level deeper keeps everything. -/
theorem progress_render (n : Nat) (nodes : List Node) (hs : s.Sound) (hv : scope.Valid s) :
    Progress s (((Deeper.within n).render scope nodes).after s) := by
  cases n with
  | zero => exact .refl hs
  | succ k => exact (renderNodes scope nodes).progress k hs hv

end Script

end Stencil
