import Stencil.Proofs.TakeBack

/-!
# While a name is hidden

A loop assigns its name before the first pass and takes that back after the last, so in between no call of its
scope has a parameter of the name. `Kept` says what an evaluation leaves as it is from such a moment on: the
parameters stay hidden, and the undos from before stay to be carried out. Later undos are of later assignments
only (`Undo.From`), so they give none of these parameters back. Whatever is carried out keeps all that:
`Script.kept`.
-/

namespace Stencil

/-- Whether all parameters that an undo gives back were hidden from a number on. -/
def Undo.From (n : Nat) : Undo → Prop
  | .rebind .. => True
  | .unhide h inner => n ≤ h ∧ inner.From n

namespace Store

/-- The stages of a loop, from the store before it to the store after its passes: each keeps everything, and the
assignments of the loop can be taken back. -/
structure LoopStages (scope : Scope) (x : String) (source : Source) (s s' : Store) : Prop where
  begins : Progress s (s.beginLoop scope x source).2.2.2
  passes : Progress (s.beginLoop scope x source).2.2.2 s'
  fitsLoop : (s.beginLoop scope x source).2.2.1.Fits s' loopVar
  ends : Progress s' (s'.undo (s.beginLoop scope x source).2.2.1)
  fitsVar : (s.beginLoop scope x source).2.1.Fits (s'.undo (s.beginLoop scope x source).2.2.1) x

/-- Whether evaluation from one store to another has left a name alone in some calls, which have it hidden: it
is hidden there still, what was to give it back is to do so still, and what calls that have begun since are to
give back was hidden since. -/
structure Kept (x : String) (calls : List CallRef) (s s' : Store) : Prop where
  old : ∀ c ∈ calls, c.index < s.calls.size
  absent : ∀ c ∈ calls, s.arg x c = none
  same : SameArgs x calls s s'
  fresh : ∀ h, s.shadows.size ≤ h → h < s'.shadows.size → (s'.shadow h).param = x →
    (s'.shadow h).call ∉ calls
  hidden : ∀ c, s.calls.size ≤ c.index → ∀ u ∈ (s'.call c).hidden, u.From s.shadows.size

variable {s₀ s s' : Store} {x y : String} {calls : List CallRef} {scope : Scope} {u : Undo} {n : Nat}

/-! ### Assignments -/

/-- What takes an assignment back gives back parameters that the assignment hid, and so does every undo that it
leaves in a call. -/
theorem from_assignIn {r : RootRef} {v : Value} (row : List CallRef) (hr : r.index < s.roots.size)
    (hn : n ≤ s.shadows.size) :
    (assignIn r y v row s).1.From n ∧
      ∀ c, ∀ u ∈ ((assignIn r y v row s).2.call c).hidden, u ∈ (s.call c).hidden ∨ u.From n := by
  induction row generalizing s with
  | nil => exact ⟨trivial, fun c u hu => .inl hu⟩
  | cons d ds ih =>
    cases hd : s.arg y d with
    | none =>
      rw [assignIn_cons_of_none hd]
      exact ih hr hn
    | some t =>
      have hlt : d.index < s.calls.size := lt_of_arg_eq_some hd
      have hlt' : d.index < (assignIn r y v ds (s.hide d y)).2.calls.size := by simpa using hlt
      obtain ⟨hfrom, hhidden⟩ := ih (s := s.hide d y) hr hn
      have hsize : n ≤ (assignIn r y v ds (s.hide d y)).2.shadows.size :=
        Nat.le_trans hn (assigned_assignIn (s := s.hide d y) ds hr).1.grows.shadows
      rw [assignIn_cons_of_some hd]
      refine ⟨⟨hsize, hfrom⟩, fun c u hu => ?_⟩
      rw [hidden_remember hlt'] at hu
      have hrest : u ∈ ((assignIn r y v ds (s.hide d y)).2.call c).hidden →
          u ∈ (s.call c).hidden ∨ u.From n := by
        intro hu
        have hu := hhidden c u hu
        rwa [hidden_hide hlt] at hu
      split at hu
      · rcases List.mem_cons.1 hu with rfl | hu
        · exact .inr ⟨hsize, hfrom⟩
        · exact hrest hu
      · exact hrest hu

namespace Kept

theorem refl (hold : ∀ c ∈ calls, c.index < s.calls.size) (habsent : ∀ c ∈ calls, s.arg x c = none) :
    Kept x calls s s := by
  refine ⟨hold, habsent, .refl x calls s, fun h hge hlt => absurd hlt (Nat.not_lt.2 hge), fun c hc u hu => ?_⟩
  have hnew : s.call c = default := by
    rw [call, Heap.get, Array.getD_eq_getD_getElem?, Array.getElem?_eq_none hc]
    rfl
  rw [hnew] at hu
  cases hu

/-- Steps that change no parameter that was hidden, and hide none. -/
theorem step (h : Kept x calls s₀ s) (hsame : SameArgs x calls s s') (hsize : s'.shadows.size = s.shadows.size)
    (hcall : ∀ k, (s'.shadow k).call = (s.shadow k).call) (hparam : ∀ k, (s'.shadow k).param = (s.shadow k).param)
    (hhidden : ∀ c, ∀ u ∈ (s'.call c).hidden, u ∈ (s.call c).hidden) : Kept x calls s₀ s' := by
  refine ⟨h.old, h.absent, h.same.trans hsame, fun k hge hlt hx => ?_, fun c hc u hu => ?_⟩
  · rw [hparam] at hx
    rw [hcall]
    exact h.fresh k hge (hsize ▸ hlt) hx
  · exact h.hidden c hc u (hhidden c u hu)

theorem sameFrames (h : Kept x calls s₀ s) {other : Scope} (hframes : SameFrames other s s') :
    Kept x calls s₀ s' := by
  have hsame : SameIn x ⟨calls, default⟩ s s' := .of_sameFrames hframes
  refine h.step hsame.toSameArgs (by rw [hframes.shadows]) (fun k => by rw [shadow_of_eq hframes.shadows])
    (fun k => by rw [shadow_of_eq hframes.shadows]) fun c u hu => ?_
  rwa [call_of_eq hframes.calls] at hu

theorem addMacros (h : Kept x calls s₀ s) {other : Scope} (hv : other.Valid s) (ms : List MacroDef) :
    Kept x calls s₀ (s.addMacros other.root ms) := by
  have hsame : SameIn x ⟨calls, default⟩ s (s.addMacros other.root ms) := .addMacros hv
  exact h.step hsame.toSameArgs rfl (fun _ => rfl) (fun _ => rfl) fun _ _ hu => hu

/-- No assignment hides a parameter of the name, since none is left. -/
theorem assign (h : Kept x calls s₀ s) (hs : s.Sound) (hr : scope.root.index < s.roots.size) (y : String)
    (v : Value) : Kept x calls s₀ (s.assign scope y v).2 := by
  have ha := assigned_assign scope y v hr
  have habsent : ∀ c ∈ calls, s.arg x c = none := fun c hc => by rw [h.same.arg c hc, h.absent c hc]
  have hsame : SameArgs x calls s (s.assign scope y v).2 := by
    by_cases hyx : y = x
    · subst hyx
      exact .assign_of_absent hs hr fun c _ hc => habsent c hc
    · have hother : SameIn x ⟨calls, default⟩ s (s.assign scope y v).2 := .assign_of_ne hs hr hyx
      exact hother.toSameArgs
  refine ⟨h.old, h.absent, h.same.trans hsame, fun k hge hlt hx => ?_, fun c hc u hu => ?_⟩
  · rcases Nat.lt_or_ge k s.shadows.size with hold | hnew
    · rw [ha.same k hold] at hx ⊢
      exact h.fresh k hge hold hx
    · obtain ⟨hp, -, harg⟩ := ha.fresh k hnew hlt
      obtain rfl := hp.symm.trans hx
      intro hmem
      rw [habsent _ hmem] at harg
      cases harg
  · rcases (from_assignIn scope.calls hr h.same.sizeShadows).2 c u hu with hu | hu
    · exact h.hidden c hc u hu
    · exact hu

/-! ### Taking back -/

/-- Marking a parameter that was hidden since as given back: no call that matters has it. -/
theorem finish (h : Kept x calls s₀ s) (hs : s.Sound) {k : Nat} (hk : k < s.shadows.size)
    (hge : s₀.shadows.size ≤ k) : Kept x calls s₀ (s.finish k) := by
  have hother {j : Nat} (hj : j < s₀.shadows.size) : (s.finish k).shadow j = s.shadow j := by
    rw [shadow_finish hk, if_neg (by omega)]
  have hkind (j : Nat) : ((s.finish k).shadow j).param = (s.shadow j).param ∧
      ((s.finish k).shadow j).call = (s.shadow j).call := by
    rw [shadow_finish hk]
    split
    · rename_i hj
      rw [hj]
      exact ⟨rfl, rfl⟩
    · exact ⟨rfl, rfl⟩
  have hlives : ∀ c ∈ calls, (s.finish k).lives x c = s.lives x c := by
    intro c hc
    rw [lives_finish hk, List.filter_eq_self]
    intro v hv
    have hx := (fits_of_live hs v hv)
    obtain ⟨j, inner, rfl, hcall, -⟩ := hs.hidden c v (List.mem_filter.1 hv).1
    have hne : j ≠ k := by
      rintro rfl
      exact h.fresh j hge hk hx.2.1 (hcall ▸ hc)
    simpa [Undo.unhides] using hne
  refine ⟨h.old, h.absent, ⟨h.same.sizeRoots, h.same.sizeCalls, by simpa using h.same.sizeShadows, ?_, ?_,
    h.same.arg, ?_⟩, ?_, h.hidden⟩
  · intro j hj
    rw [hother hj, h.same.param j hj]
  · intro j hj hx
    rw [hother hj, h.same.shadow j hj hx]
  · intro c hc
    rw [hlives c hc, h.same.lives c hc]
  · intro j hj hlt hx
    rw [(hkind j).1] at hx
    rw [(hkind j).2]
    exact h.fresh j hj (by simpa using hlt) hx

theorem giveBack (h : Kept x calls s₀ s) {p : Shadow} (hp : p.call.index < s.calls.size)
    (hn : p.param = x → p.call ∉ calls) : Kept x calls s₀ (s.giveBack p) := by
  refine h.step ⟨Nat.le_refl _, Nat.le_of_eq size_calls_giveBack.symm, Nat.le_refl _, fun _ _ => rfl,
    fun _ _ _ => rfl, fun c hc => ?_, fun c _ => lives_giveBack hp c⟩ rfl (fun _ => rfl) (fun _ => rfl)
    fun c u hu => ?_
  · rw [arg_giveBack hp, if_neg]
    rintro ⟨rfl, rfl⟩
    exact hn rfl hc
  · rwa [hidden_giveBack hp] at hu

/-- Taking back an assignment that was made since. -/
theorem undo (h : Kept x calls s₀ s) (hs : s.Sound) (hfits : u.Fits s y) (hfrom : u.From s₀.shadows.size) :
    Kept x calls s₀ (Store.undo u s) := by
  induction u generalizing s with
  | rebind r z former =>
    cases former <;>
      exact h.step ⟨by simp [Store.undo, setRoot], Nat.le_refl _, Nat.le_refl _, fun _ _ => rfl,
        fun _ _ _ => rfl, fun _ _ => rfl, fun _ _ => rfl⟩ rfl (fun _ => rfl) (fun _ => rfl) fun _ _ hu => hu
  | unhide k inner ih =>
    obtain ⟨hk, -, hinner⟩ := hfits
    obtain ⟨hge, hfrom⟩ := hfrom
    have hinner' := hinner.mono (grows_finish k)
    rw [undo_unhide]
    split
    · exact h
    · refine (ih (h.finish hs hk hge) (hs.finish k) hinner' hfrom).giveBack ?_ (h.fresh k hge hk)
      rw [((hs.finish k).undone_undo hinner').calls]
      exact (hs.shadows k hk).1

theorem undoAll (h : Kept x calls s₀ s) (hs : s.Sound) {us : List Undo}
    (hus : ∀ u ∈ us, (∃ y, u.Fits s y) ∧ u.From s₀.shadows.size) : Kept x calls s₀ (undoAll us s) := by
  induction us generalizing s with
  | nil => exact h
  | cons u us ih =>
    obtain ⟨⟨y, hfits⟩, hfrom⟩ := hus u (List.mem_cons_self ..)
    have hun := hs.undone_undo hfits
    refine ih (h.undo hs hfits hfrom) (hun.sound hs) fun v hv => ?_
    obtain ⟨⟨z, hz⟩, hv⟩ := hus v (List.mem_cons_of_mem _ hv)
    exact ⟨⟨z, hz.mono hun.grows⟩, hv⟩

/-! ### Calls -/

theorem beginCall (h : Kept x calls s₀ s) (other : Scope) (m : MacroDef) (args : List Expr)
    (body : Option (List Node)) : Kept x calls s₀ (s.beginCall other m args body).2 := by
  have hsame : SameIn x ⟨calls, default⟩ s (s.beginCall other m args body).2 :=
    .beginCall fun c hc => Nat.lt_of_lt_of_le (h.old c hc) h.same.sizeCalls
  refine h.step hsame.toSameArgs (by rw [shadows_beginCall]) (fun k => by rw [shadow_beginCall])
    (fun k => by rw [shadow_beginCall]) fun c u hu => ?_
  rw [(call_beginCall c).2] at hu
  split at hu
  · cases hu
  · exact hu

/-- The end of a call that has begun since. -/
theorem endCall (h : Kept x calls s₀ s) (hs : s.Sound) {c : CallRef} (hc : c.index < s.calls.size)
    (hge : s₀.calls.size ≤ c.index) : Kept x calls s₀ (s.restoreParams c) := by
  have hforget : Kept x calls s₀ (s.forget c) := by
    refine h.step ⟨Nat.le_refl _, by simp [forget, setCall], Nat.le_refl _, fun _ _ => rfl, fun _ _ _ => rfl,
      fun d _ => arg_forget hc x d, fun d hd => ?_⟩ rfl (fun _ => rfl) (fun _ => rfl) fun d u hu => ?_
    · have hlt := h.old d hd
      rw [lives_forget hc, if_neg]
      rintro rfl
      omega
    · rw [hidden_forget hc] at hu
      split at hu
      · cases hu
      · exact hu
  rw [restoreParams_eq]
  exact hforget.undoAll (hs.forget hc) fun u hu => ⟨fits_of_hidden hs u hu, h.hidden c hge u hu⟩

/-! ### Loops -/

/-- The beginning of a loop, with the undos that are carried out at its end. -/
theorem beginLoop (h : Kept x calls s₀ s) (hs : s.Sound) (hv : scope.Valid s) (z : String) (source : Source) :
    Kept x calls s₀ (s.beginLoop scope z source).2.2.2 ∧
      (s.beginLoop scope z source).2.1.From s₀.shadows.size ∧
      (s.beginLoop scope z source).2.2.1.From s₀.shadows.size := by
  have hprogress := Progress.midLoop z source hs hv
  have hroot := (hv.mono hprogress.grows).root
  have hmid : Kept x calls s₀ (s.midLoop scope z source) :=
    (h.assign hs hv.root z .null).sameFrames (sameFrames_midLoop s scope z source)
  rw [beginLoop_undoVar, beginLoop_rest]
  exact ⟨hmid.assign hprogress.sound hroot loopVar _, (from_assignIn _ hv.root h.same.sizeShadows).1,
    (from_assignIn _ hroot hmid.same.sizeShadows).1⟩

end Kept

end Store

namespace Run

open Store (Kept LoopStages Progress)

variable {α β : Type} {x z : String} {calls : List CallRef} {s₀ s : Store} {scope : Scope}

/-- A loop goes through its stages if its body keeps everything. -/
theorem loopStages {source : Source} {body : Run Unit}
    (hbody : ∀ s : Store, s.Sound → scope.Valid s → Progress s (body.after s)) (n : Nat) (hs : s.Sound)
    (hv : scope.Valid s) :
    LoopStages scope x source s ((iterate scope x (s.beginLoop scope x source).1 body n).after
      (s.beginLoop scope x source).2.2.2) := by
  have hbegin := Progress.beginLoop x source hs hv
  have hpasses := progress_iterate (x := x) (r := (s.beginLoop scope x source).1) hbody n hbegin.sound
    (hv.mono hbegin.grows)
  have hfits := (Store.fits_undoLoop x source hs hv).mono hpasses.grows
  have hends := Progress.undo hpasses.sound hfits
  exact ⟨hbegin, hpasses, hfits, hends, ((Store.fits_undoVar x source hs hv).mono hpasses.grows).mono hends.grows⟩

theorem kept_bind {y : Run β} {f : β → Run α} (hy : Kept x calls s₀ (y.after s))
    (hf : ∀ b, Kept x calls s₀ ((f b).after (y.after s))) : Kept x calls s₀ ((y >>= f).after s) := by
  rw [after] at hy hf
  rw [after_bind]
  cases he : y s with
  | ok b s₁ =>
    rw [he] at hf
    exact hf b
  | error h s₁ =>
    rw [he] at hy
    exact hy

/-- The passes of a loop keep what its body keeps. -/
theorem kept_iterate {r : LoopRef} {body : Run Unit}
    (hprogress : ∀ s : Store, s.Sound → scope.Valid s → Progress s (body.after s))
    (hbody : ∀ s : Store, s.Sound → scope.Valid s → Kept x calls s₀ s → Kept x calls s₀ (body.after s))
    (n : Nat) (hs : s.Sound) (hv : scope.Valid s) (h : Kept x calls s₀ s) :
    Kept x calls s₀ ((iterate scope z r body n).after s) := by
  induction n generalizing s with
  | zero => exact h
  | succ n ih =>
    have hframes : Store.SameFrames scope s _ := Apart.toRun (loopNext r) s
    have hnext : Progress s ((liftM (loopNext r) : Run (Option Value)).after s) :=
      .of_sameFrames hs hv hframes
    have hkept := h.sameFrames hframes
    refine kept_bind hkept fun v => ?_
    cases v with
    | none => exact hkept
    | some v =>
      have hv₁ := hv.mono hnext.grows
      have hassign := Progress.assign hnext.sound scope z v hv₁.root
      have hkept' := hkept.assign hnext.sound hv₁.root z v
      have hv₂ := hv₁.mono hassign.grows
      refine kept_bind hkept' fun _ => ?_
      have hpass := hprogress _ hassign.sound hv₂
      have hkept'' := hbody _ hassign.sound hv₂ hkept'
      exact kept_bind hkept'' fun _ => ih hpass.sound (hv₂.mono hpass.grows) hkept''

end Run

namespace Script

open Store (Kept Progress)

variable {α : Type} {x : String} {calls : List CallRef} {s₀ s : Store} {scope : Scope}

/-- Carrying out a script leaves alone what is to be kept, when evaluation one level deeper does. -/
theorem kept_step {n : Nat}
    (ih : ∀ k, n = k + 1 → ∀ {s : Store} {scope : Scope} {β : Type} (y : Script scope β), s.Sound →
      scope.Valid s → Kept x calls s₀ s → Kept x calls s₀ ((y.run (Deeper.within k)).after s))
    (y : Script scope α) (hs : s.Sound) (hv : scope.Valid s) (h : Kept x calls s₀ s) :
    Kept x calls s₀ ((y.run (Deeper.within n)).after s) := by
  have hrender : ∀ {s : Store} {scope : Scope} (nodes : List Node), s.Sound → scope.Valid s →
      Kept x calls s₀ s → Kept x calls s₀ (((Deeper.within n).render scope nodes).after s) := by
    intro s scope nodes hs hv h
    cases n with
    | zero => exact h
    | succ k => exact ih k rfl (renderNodes scope nodes) hs hv h
  have hcapture : ∀ {s : Store} {scope : Scope} (y : Run Unit), s.Sound → scope.Valid s →
      Kept x calls s₀ s →
      (∀ {s : Store}, s.Sound → scope.Valid s → Kept x calls s₀ s → Kept x calls s₀ (y.after s)) →
      Kept x calls s₀ ((Run.capture y).after s) := by
    intro s scope y hs hv h hy
    rw [Run.after_capture]
    have hw := Progress.written hs hv ""
    have hwritten (s : Store) (text : String) : Store.SameFrames scope s { s with written := text } :=
      .of_eq rfl rfl rfl rfl
    exact (hy hw.sound (hv.mono hw.grows) (h.sameFrames (hwritten s ""))).sameFrames (hwritten _ _)
  induction y generalizing s with
  | done a => exact h
  | andThen y f ihy ihf =>
    have hy := y.progress n hs hv
    have hkept := ihy hs hv h
    exact Run.kept_bind hkept fun b => ihf b hy.sound (hv.mono hy.grows) hkept
  | act a => exact h.sameFrames (a.apart _ scope s)
  | leave place loopOnly => exact h
  | read z =>
    show Kept x calls s₀ ((Run.read (Deeper.within n) scope z).after s)
    rw [Run.after, Run.read_eq, ← Run.after]
    cases hb : s.lookup scope z with
    | block b => exact h
    | stored v => exact h
    | argument c t =>
      cases n with
      | zero => exact h
      | succ k => exact ih k rfl (evalExpr t.scope t.expr false) hs (hs.valid_argument hb) h
  | assign z v => exact h.assign hs hv.root z v
  | capture y ihy => exact hcapture _ hs hv h fun hs hv h => ihy hs hv h
  | rethrow f y ihy =>
    rw [run, Run.after_mapFailure]
    exact ihy hs hv h
  | loop z source body ihb =>
    rw [run, Run.after_forEach]
    have hprogress (s : Store) (hs : s.Sound) (hv : scope.Valid s) : Progress s ((body.run (Deeper.within n)).after s) :=
      body.progress n hs hv
    have hloop : Store.LoopStages scope z source s _ := Run.loopStages hprogress n hs hv
    obtain ⟨hstart, hundoVar, hundoLoop⟩ := h.beginLoop hs hv z source
    have hkept := Run.kept_iterate (z := z) (r := (s.beginLoop scope z source).1) hprogress
      (fun s hs hv h => ihb (s := s) hs hv h) n hloop.begins.sound (hv.mono hloop.begins.grows) hstart
    -- The loop takes back the assignment of its state first, and that of its variable then.
    exact (hkept.undo hloop.passes.sound hloop.fitsLoop hundoLoop).undo hloop.ends.sound hloop.fitsVar hundoVar
  | call m args body =>
    rw [run, Run.after_renderMacro]
    have hbegin := Progress.beginCall m args body hs hv
    have hv' := Store.Valid.enter m args body hv
    have hbody := progress_render n m.body hbegin.sound hv'
    have hc := hv'.calls _ (List.mem_cons_self ..)
    refine (hrender m.body hbegin.sound hv' (h.beginCall scope m args body)).endCall hbody.sound
      (Nat.lt_of_lt_of_le hc hbody.grows.calls) ?_
    rw [Store.beginCall_fst]
    exact h.same.sizeCalls
  | template t =>
    rw [run, Run.after_renderTemplate]
    have hmacros := Progress.addMacros hs scope.root t.macros
    exact hrender _ hmacros.sound (hv.mono hmacros.grows) (h.addMacros hv t.macros)
  | block b => exact hcapture _ hs (hs.valid_block hv b) h fun hs hv h => hrender _ hs hv h
  | text v =>
    cases n with
    | zero => exact h
    | succ k => exact ih k rfl (textOf v) hs (Store.valid_default hv) h

/-- Whatever a script does and however it ends, it leaves alone a name that the calls that matter have hidden,
and what is to give it back. -/
theorem kept (n : Nat) (y : Script scope α) (hs : s.Sound) (hv : scope.Valid s) (h : Kept x calls s₀ s) :
    Kept x calls s₀ ((y.run (Deeper.within n)).after s) := by
  induction n generalizing s scope α with
  | zero => exact y.kept_step (fun k h => absurd h (Nat.zero_ne_add_one k)) hs hv h
  | succ n ih =>
    refine y.kept_step (fun k h => ?_) hs hv h
    cases h
    exact ih

end Script

end Stencil
