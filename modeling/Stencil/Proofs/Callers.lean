import Stencil.Proofs.EventFrame
import Stencil.Proofs.Parameters

/-!
# The scope that a call was made in

The parameters of a call are bound to arguments in the scope that the call was made in, also those that an
assignment has hidden. `Scope.Nested` says so of every call of a scope, with the calls under it as the scope
that it was made in. Runs keep it of their own scope and of the scopes of all blocks, so it holds wherever a
script is begun in an evaluation, and looking a parameter up leads outward: `Store.lookup_outward`.
-/

namespace Stencil

namespace Store

/-- Whether the arguments of a call are bound to a scope, and those that assignments have hidden too. -/
structure BindsIn (s : Store) (c : CallRef) (caller : Scope) : Prop where
  args : ∀ p t, s.arg p c = some t → t.scope = caller
  shadows : ∀ h, h < s.shadows.size → (s.shadow h).call = c → (s.shadow h).thunk.scope = caller

/-- Whether each of some calls has the parameters, or what gives them back, of a call made in those that
follow it. -/
def MadeIn (s : Store) (root : RootRef) : List CallRef → Prop
  | [] => True
  | c :: cs => (∃ m args, s.Keeps c (callParams ⟨cs, root⟩ m args)) ∧ s.MadeIn root cs

end Store

/-- Whether each call of a scope was made in the calls under it. -/
def Scope.Nested (scope : Scope) (s : Store) : Prop :=
  s.MadeIn scope.root scope.calls

/-- Whether the arguments of each call of a scope are bound to what is under the call, and looking a name up leads
there. -/
structure Scope.LeadsOutward (scope : Scope) (s : Store) : Prop where
  binds : ∀ inner c outer, scope.calls = inner ++ c :: outer → s.BindsIn c ⟨outer, scope.root⟩
  argument : ∀ x c t, s.lookup scope x = .argument c t →
    ∃ inner, scope = ⟨inner ++ c :: t.scope.calls, t.scope.root⟩

namespace Store

variable {s s' : Store} {scope : Scope} {root : RootRef} {calls inner outer : List CallRef} {c : CallRef}

theorem Keeps.bindsIn {caller : Scope} {m : MacroDef} {args : List Expr}
    (h : s.Keeps c (callParams caller m args)) : s.BindsIn c caller :=
  ⟨fun p t ht => scope_of_callParams (h.args p t ht), fun k hk hc => scope_of_callParams (h.shadows k hk hc)⟩

namespace MadeIn

theorem suffix (h : s.MadeIn root (inner ++ outer)) : s.MadeIn root outer := by
  induction inner with
  | nil => exact h
  | cons c cs ih => exact ih h.2

theorem bindsIn (h : s.MadeIn root (inner ++ c :: outer)) : s.BindsIn c ⟨outer, root⟩ := by
  obtain ⟨⟨m, args, hk⟩, -⟩ := h.suffix
  exact hk.bindsIn

theorem mono (h : s.MadeIn root calls)
    (hk : ∀ c ∈ calls, ∀ params, s.Keeps c params → s'.Keeps c params) : s'.MadeIn root calls := by
  induction calls with
  | nil => trivial
  | cons c cs ih =>
    obtain ⟨⟨m, args, hkeeps⟩, hrest⟩ := h
    exact ⟨⟨m, args, hk c List.mem_cons_self _ hkeeps⟩,
      ih hrest fun d hd => hk d (List.mem_cons_of_mem _ hd)⟩

end MadeIn

/-- An argument that a name stands for is held by one of the calls. -/
theorem arg_of_lookupIn {x : String} {t : Thunk} (h : s.lookupIn root x calls = .argument c t) :
    ∃ inner outer, calls = inner ++ c :: outer ∧ s.arg x c = some t := by
  induction calls with
  | nil => cases h
  | cons d cs ih =>
    rw [lookupIn] at h
    split at h
    · cases h
    · rename_i t' _ ht
      cases h
      exact ⟨[], cs, rfl, ht⟩
    · obtain ⟨inner, outer, rfl, ht⟩ := ih h
      exact ⟨d :: inner, outer, rfl, ht⟩

/-- The scope of an argument that a name stands for is what is under the call that holds it. -/
theorem lookup_outward (h : scope.Nested s) {x : String} {t : Thunk} (hx : s.lookup scope x = .argument c t) :
    ∃ inner, scope = ⟨inner ++ c :: t.scope.calls, t.scope.root⟩ := by
  obtain ⟨calls, root⟩ := scope
  obtain ⟨inner, outer, rfl, ht⟩ := arg_of_lookupIn hx
  rw [(MadeIn.bindsIn h).args x t ht]
  exact ⟨inner, rfl⟩

end Store

namespace Scope.Nested

open Store (Progress)

variable {s s' : Store} {scope : Scope}

theorem progress (h : scope.Nested s) (hv : scope.Valid s) (hp : Progress s s') : scope.Nested s' :=
  Store.MadeIn.mono h fun c hc params => hp.keeps c params (hv.calls c hc)

theorem of_lookup (h : scope.Nested s) {x : String} {c : CallRef} {t : Thunk}
    (hx : s.lookup scope x = .argument c t) : t.scope.Nested s := by
  obtain ⟨inner, rfl⟩ := Store.lookup_outward h hx
  exact (Store.MadeIn.suffix h).2

theorem enter (h : scope.Nested s) (hs : s.Sound) (hv : scope.Valid s) (m : MacroDef) (args : List Expr)
    (body : Option (List Node)) :
    (scope.enter (s.beginCall scope m args body).1).Nested (s.beginCall scope m args body).2 :=
  ⟨⟨m, args, Store.keeps_beginCall hs⟩, h.progress hv (.beginCall m args body hs hv)⟩

theorem leadsOutward (h : scope.Nested s) : scope.LeadsOutward s := by
  refine ⟨fun inner c outer hcalls => ?_, fun x c t hx => Store.lookup_outward h hx⟩
  rw [Scope.Nested, hcalls] at h
  exact h.bindsIn

end Scope.Nested

/-! ### The end of a call -/

namespace Store

variable {s : Store} {c d : CallRef} {params : Bindings Thunk}

@[simp] theorem size_shadows_undo (u : Undo) : (undo u s).shadows.size = s.shadows.size := by
  induction u generalizing s with
  | rebind r x former => cases former <;> rfl
  | unhide k inner ih =>
    rw [undo_unhide]
    split
    · rfl
    · exact ih.trans (Heap.size_set ..)

theorem size_shadows_undoAll (us : List Undo) : (undoAll us s).shadows.size = s.shadows.size := by
  induction us generalizing s with
  | nil => rfl
  | cons u us ih => exact ih.trans (size_shadows_undo u)

/-- When a call ends it still keeps its parameters. -/
theorem Keeps.restoreParams_self (hk : s.Keeps c params) (hs : s.Sound) (hc : c.index < s.calls.size) :
    (s.restoreParams c).Keeps c params := by
  have hargs := arg_restoreParams hk hs hc
  have hgrows := (progress_restoreParams hs hc).grows
  refine ⟨fun y t ht => (hargs y).symm.trans ht, fun h hlt hcall => ?_, fun y t ht hn => ?_⟩
  · have hlt' : h < s.shadows.size := Nat.lt_of_lt_of_eq hlt (size_shadows_undoAll _)
    rw [hgrows.call h hlt'] at hcall
    rw [hgrows.param h hlt', hgrows.thunk h hlt']
    exact hk.shadows h hlt' hcall
  -- Every argument is back, so no undo is wanted any more.
  · rw [hargs, ht] at hn
    cases hn

theorem Progress.restoreParams (hs : s.Sound) (hc : c.index < s.calls.size) :
    Progress s (s.restoreParams c) := by
  have h := progress_restoreParams hs hc
  refine ⟨h.sound, grows_forget.trans h.grows, fun d params hd hk => ?_⟩
  by_cases hdc : d = c
  · subst hdc
    exact hk.restoreParams_self hs hc
  · exact hk.restoreParams hs hc hdc hd

end Store

/-! ### Blocks -/

namespace Store

/-- A sound store in which the scope of every block is nested. -/
structure Nested (s : Store) : Prop where
  sound : s.Sound
  blocks : ∀ (k : Nat) (b : Block), s.blocks[k]? = some b → b.scope.Nested s

/-- Such a store, and a scope in it that is nested too. -/
structure Nests (s : Store) (scope : Scope) : Prop where
  store : s.Nested
  valid : scope.Valid s
  nested : scope.Nested s

variable {s s' : Store} {scope : Scope}

/-- What keeps everything and adds only blocks of nested scopes keeps scopes nested. -/
theorem Nested.progress (h : s.Nested) (hp : Progress s s')
    (hb : ∀ (k : Nat) (b : Block), s'.blocks[k]? = some b → s.blocks[k]? = some b ∨ b.scope.Nested s') :
    s'.Nested := by
  refine ⟨hp.sound, fun k b hk => ?_⟩
  rcases hb k b hk with hk | hn
  · exact (h.blocks k b hk).progress (h.sound.blocks k b hk) hp
  · exact hn

namespace Nests

theorem progress (h : s.Nests scope) (hp : Progress s s')
    (hb : ∀ (k : Nat) (b : Block), s'.blocks[k]? = some b → s.blocks[k]? = some b ∨ b.scope.Nested s') :
    s'.Nests scope :=
  ⟨h.store.progress hp hb, h.valid.mono hp.grows, h.nested.progress h.valid hp⟩

theorem progress_of_blocks_eq (h : s.Nests scope) (hp : Progress s s') (hb : s'.blocks = s.blocks) :
    s'.Nests scope :=
  h.progress hp fun _ _ hk => .inl (hb ▸ hk)

/-- What runs in another scope keeps this one too. -/
theorem back {inner : Scope} (h : s.Nests scope) (hp : Progress s s') (h' : s'.Nests inner) :
    s'.Nests scope :=
  ⟨h'.store, h.valid.mono hp.grows, h.nested.progress h.valid hp⟩

theorem sameFrames (h : s.Nests scope) (hf : SameFrames scope s s') : s'.Nests scope := by
  have hp := Progress.of_sameFrames h.store.sound h.valid hf
  refine h.progress hp fun k b hk => (hf.blocks k b hk).imp_right ?_
  rintro rfl
  exact h.nested.progress h.valid hp

theorem written (h : s.Nests scope) (text : String) : { s with written := text }.Nests scope :=
  h.progress_of_blocks_eq (.written h.store.sound h.valid text) rfl

theorem assign (h : s.Nests scope) (x : String) (v : Value) : (s.assign scope x v).2.Nests scope :=
  h.progress_of_blocks_eq (.assign h.store.sound scope x v h.valid.root)
    (assigned_assign scope x v h.valid.root).blocks

theorem undo (h : s.Nests scope) {u : Undo} {x : String} (hu : u.Fits s x) :
    (s.undo u).Nests scope :=
  h.progress_of_blocks_eq (.undo h.store.sound hu) (blocks_of_bare (s.bare_undo u))

theorem addMacros (h : s.Nests scope) (ms : List MacroDef) : (s.addMacros scope.root ms).Nests scope :=
  h.progress_of_blocks_eq (.addMacros h.store.sound scope.root ms) rfl

theorem argument (h : s.Nests scope) {x : String} {c : CallRef} {t : Thunk}
    (hx : s.lookup scope x = .argument c t) : s.Nests t.scope :=
  ⟨h.store, h.store.sound.valid_argument hx, h.nested.of_lookup hx⟩

theorem default (h : s.Nests scope) : s.Nests default :=
  ⟨h.store, valid_default h.valid, trivial⟩

theorem block (h : s.Nests scope) (b : BlockRef) : s.Nests (s.block b).scope := by
  refine ⟨h.store, h.store.sound.valid_block h.valid b, ?_⟩
  rw [Store.block, Std.TreeMap.getD_eq_getD_getElem?]
  cases hb : s.blocks[b.id]? with
  | none => trivial
  | some b' => exact h.store.blocks _ _ hb

theorem midLoop (h : s.Nests scope) (x : String) (source : Source) : (s.midLoop scope x source).Nests scope :=
  (h.assign x .null).sameFrames (sameFrames_midLoop s scope x source)

theorem beginLoop (h : s.Nests scope) (x : String) (source : Source) :
    (s.beginLoop scope x source).2.2.2.Nests scope := by
  rw [beginLoop_rest]
  exact (h.midLoop x source).assign loopVar _

/-- Only the block that is given to a call is new when it begins, and its scope is that of the call. -/
theorem beginCall (h : s.Nests scope) (m : MacroDef) (args : List Expr) (body : Option (List Node)) :
    (s.beginCall scope m args body).2.Nests (scope.enter (s.beginCall scope m args body).1) := by
  have hp := Progress.beginCall m args body h.store.sound h.valid
  refine ⟨h.store.progress hp fun k b hk => ?_, Valid.enter m args body h.valid,
    h.nested.enter h.store.sound h.valid m args body⟩
  cases body with
  | none => exact .inl hk
  | some nodes =>
    simp only [Store.beginCall, enterCall, Option.elim, addBlock, Std.TreeMap.getElem?_insert] at hk
    split at hk
    · cases hk
      exact .inr (h.nested.progress h.valid hp)
    · exact .inl hk

theorem restoreParams (h : s.Nests scope) {c : CallRef} (hc : c.index < s.calls.size) :
    (s.restoreParams c).Nests scope :=
  h.progress_of_blocks_eq (.restoreParams h.store.sound hc) (blocks_of_bare (s.bare_restoreParams c))

end Nests

end Store

/-! ### Runs -/

namespace Run

variable {α β : Type} {s : Store} {scope : Scope}

theorem nests_bind {x : Run β} {f : β → Run α} (hx : (x.after s).Nests scope)
    (hf : ∀ b, ((f b).after (x.after s)).Nests scope) : ((x >>= f).after s).Nests scope := by
  rw [after] at hx hf
  rw [after_bind]
  cases he : x s with
  | ok b s₁ =>
    rw [he] at hf
    exact hf b
  | error h s₁ =>
    rw [he] at hx
    exact hx

theorem nests_iterate {x : String} {r : LoopRef} {body : Run Unit}
    (hbody : ∀ s : Store, s.Nests scope → (body.after s).Nests scope) (n : Nat) (h : s.Nests scope) :
    ((iterate scope x r body n).after s).Nests scope := by
  induction n generalizing s with
  | zero => exact h
  | succ n ih =>
    have hnext := h.sameFrames ((Apart.toRun (loopNext r) : Apart scope _) s)
    refine nests_bind hnext fun v => ?_
    cases v with
    | none => exact hnext
    | some v =>
      have hassign := hnext.assign x v
      refine nests_bind hassign fun _ => ?_
      have hpass := hbody _ hassign
      exact nests_bind hpass fun _ => ih hpass

end Run

namespace Script

open Store (Progress)

variable {α : Type} {s : Store} {scope : Scope}

/-- A script keeps scopes nested, if what is run one level deeper does. -/
theorem nests_step {n : Nat}
    (ih : ∀ k, n = k + 1 → ∀ {s : Store} {scope : Scope} {β : Type} (y : Script scope β), s.Nests scope →
      ((y.run (Deeper.within k)).after s).Nests scope)
    (y : Script scope α) (h : s.Nests scope) : ((y.run (Deeper.within n)).after s).Nests scope := by
  have hrender : ∀ {s : Store} {scope : Scope} (nodes : List Node), s.Nests scope →
      (((Deeper.within n).render scope nodes).after s).Nests scope := by
    intro s scope nodes h
    cases n with
    | zero => exact h
    | succ k => exact ih k rfl (renderNodes scope nodes) h
  induction y generalizing s with
  | done a => exact h
  | andThen x f ihx ihf =>
    have hx := ihx h
    exact Run.nests_bind hx fun b => ihf b hx
  | act a => exact h.sameFrames (a.apart _ scope s)
  | leave place loopOnly => exact h
  | read x =>
    show ((Run.read (Deeper.within n) scope x).after s).Nests scope
    rw [Run.after, Run.read_eq, ← Run.after]
    cases hx : s.lookup scope x with
    | block b => exact h
    | stored v => exact h
    | argument c t =>
      cases n with
      | zero => exact h
      | succ k =>
        have ht := h.argument hx
        exact h.back (Script.progress k _ ht.store.sound ht.valid) (ih k rfl (evalExpr t.scope t.expr false) ht)
  | assign x v => exact h.assign x v
  | capture x ihx =>
    rw [run, Run.after_capture]
    exact (ihx (h.written "")).written _
  | rethrow f x ihx =>
    rw [run, Run.after_mapFailure]
    exact ihx h
  | loop x source body ihb =>
    rw [run, Run.after_forEach]
    -- What the undos name is there after the passes as it was before them.
    have hbegin := h.beginLoop x source
    have hpasses := Run.nests_iterate (x := x) (r := (s.beginLoop scope x source).1)
      (fun _ hs => ihb hs) n hbegin
    have hkept := Run.progress_iterate (x := x) (r := (s.beginLoop scope x source).1)
      (fun _ hs hv => body.progress n hs hv) n hbegin.store.sound hbegin.valid
    have hloop := (Store.fits_undoLoop x source h.store.sound h.valid).mono hkept.grows
    have hvar := (Store.fits_undoVar x source h.store.sound h.valid).mono hkept.grows
    exact (hpasses.undo hloop).undo (hvar.mono (Progress.undo hpasses.store.sound hloop).grows)
  | call m args body =>
    rw [run, Run.after_renderMacro]
    -- The body runs in a scope of its own, and what it leaves is carried back to this one.
    have hbegin := h.beginCall m args body
    have hbody := hrender m.body hbegin
    have hc := hbody.valid.calls _ List.mem_cons_self
    have hkept := (call m args body : Script scope Unit).progress n h.store.sound h.valid
    rw [run, Run.after_renderMacro] at hkept
    exact h.back hkept (hbody.restoreParams hc)
  | template t =>
    rw [run, Run.after_renderTemplate]
    exact hrender _ (h.addMacros t.macros)
  | block b =>
    have hkept := (block b : Script scope String).progress n h.store.sound h.valid
    have htext := (hrender (s.block b).body ((h.block b).written "")).written s.written
    rw [← Run.after_capture] at htext
    exact h.back hkept htext
  | text v =>
    cases n with
    | zero => exact h
    | succ k =>
      have hd := h.default
      exact h.back (Script.progress k _ hd.store.sound hd.valid) (ih k rfl (textOf v) hd)

/-- Whatever a script does and however it ends, it keeps scopes nested. -/
theorem nests (n : Nat) (y : Script scope α) (h : s.Nests scope) :
    ((y.run (Deeper.within n)).after s).Nests scope := by
  induction n generalizing s scope α with
  | zero => exact y.nests_step (fun k h => absurd h (Nat.zero_ne_add_one k)) h
  | succ n ih =>
    refine y.nests_step (fun k h => ?_) h
    cases h
    exact ih

/-- Rendering one level deeper keeps scopes nested. -/
theorem nests_render (n : Nat) (nodes : List Node) (h : s.Nests scope) :
    (((Deeper.within n).render scope nodes).after s).Nests scope := by
  cases n with
  | zero => exact h
  | succ k => exact (renderNodes scope nodes).nests k h

end Script

/-! ### Evaluations -/

namespace Store

variable {s : Store}

/-- The stores that there are: nothing has happened, templates are evaluated, and between evaluations anything
else may change. -/
inductive Arises : Store → Prop
  | empty : Arises {}
  | evaluation {s : Store} (before : Arises s) (t : Template) (n : Nat) (vars : Bindings Value)
      (host : HostKind) : Arises ((t.evaluateWithin n vars host).after s)
  | aside {s : Store} (before : Arises s) (s' : Store) :
      Arises { s' with roots := s.roots, calls := s.calls, shadows := s.shadows, blocks := s.blocks }

theorem Nested.enterRoot (h : s.Nested) (f : RootFrame) : (s.enterRoot f).2.Nests (s.enterRoot f).1 := by
  obtain ⟨hsound, hvalid⟩ := h.sound.enterRoot f
  refine ⟨⟨hsound, fun k b hk => ?_⟩, hvalid, trivial⟩
  exact MadeIn.mono (h.blocks k b hk) fun c _ params hkeeps => ⟨hkeeps.args, hkeeps.shadows, hkeeps.hidden⟩

/-- An evaluation keeps scopes nested, however it ends. -/
theorem Nested.evaluation (h : s.Nested) (t : Template) (n : Nat) (vars : Bindings Value) (host : HostKind) :
    ((t.evaluateWithin n vars host).after s).Nested := by
  have hstart := (h.enterRoot ⟨vars, t.macros, host, t.loader⟩).written ""
  show ((Run.capture (Run.endBreaks ((Deeper.within n).render _ t.document.nodes))).after
    (s.enterRoot ⟨vars, t.macros, host, t.loader⟩).2).Nested
  rw [Run.after_capture, Run.after_endBreaks]
  exact ((Script.nests_render n t.document.nodes hstart).written _).store

theorem Arises.nested (h : s.Arises) : s.Nested := by
  induction h with
  | empty => exact ⟨sound_empty, fun k b hb => by simp at hb⟩
  | evaluation _ t n vars host ih => exact ih.evaluation t n vars host
  | aside _ s' ih =>
    refine ⟨ih.sound.step (.of_eq rfl rfl rfl) (fun _ _ _ ht => .inl ht) ?_ (fun _ _ hu => .inl hu)
      (fun _ _ hk => .inl hk), fun k b hk => ?_⟩
    · exact fun k hge hlt => absurd hlt (Nat.not_lt.2 hge)
    · exact MadeIn.mono (ih.blocks k b hk) fun c _ params hkeeps => ⟨hkeeps.args, hkeeps.shadows, hkeeps.hidden⟩

/-- Scopes are nested wherever a script is begun. -/
theorem carried_nests : Carried fun scope s => s.Nests scope := by
  refine ⟨?_, ?_, ?_, ?_, ?_, ?_, ?_, ?_, ?_⟩
  · exact fun x n s h => x.nests n h
  · exact fun h hx => h.argument hx
  · exact fun b h => h.block b
  · exact fun h => h.default
  · exact fun text h => h.written text
  · exact fun x source h => h.beginLoop x source
  · intro scope s s' x r v h hnext
    have htaken := h.sameFrames ((.toRun (Run.loopNext r) : Run.Apart scope _) s)
    rw [Run.after, hnext] at htaken
    exact htaken.assign x v
  · exact fun m args body h => h.beginCall m args body
  · exact fun ms h => h.addMacros ms

/-- So they are wherever a script is begun in the middle of an evaluation. -/
theorem Arises.reached {scope₁ : Scope} {β : Type} {k n : Nat} {y : Script scope₁ β} {s₁ : Store}
    {ls : List Layer} {t : Template} {vars : Bindings Value} {host : HostKind} (hs : s.Arises)
    (h : t.Reaches k y s₁ ls n vars host s) : s₁.Nests scope₁ :=
  carried_nests.reaches h ((hs.nested.enterRoot ⟨vars, t.macros, host, t.loader⟩).written "")

end Store

end Stencil
