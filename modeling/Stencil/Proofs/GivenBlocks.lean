import Stencil.Proofs.EventFrame
import Stencil.Proofs.Failures
import Stencil.Proofs.Reaches

/-!
# Blocks that are given to calls

What a run makes gets numbers that were not given out before, so a block stays in the store as it is:
`Store.Has`. During a call that was given a block the name of blocks stands for that block, whatever was
assigned: `GivenBlock.lookup_eq`.
-/

namespace Stencil

/-! ### Numbers -/

/-- Cells that have given out a number. -/
def Cells.Invariant.gaveOut (id : Nat) : Cells.Invariant where
  Holds c := id < c.nextId
  other h _ hle := Nat.lt_of_lt_of_le h hle
  stream h _ _ _ := h

/-- Whether an event is one of a script, and what host code does in it keeps an invariant of the cells. -/
def Event.Fits (Q : Cells.Invariant) : Event → Prop
  | act _ _ a => ∃ F, a.Fails Q F
  | beginRoot _ | load .. | parseResource .. | parseText .. | outside .. => False
  | _ => True

namespace Run

theorem fits_passEvents {Q : Cells.Invariant} {scope : Scope} {x : String} {r : LoopRef} {body : Run Unit}
    {events : Store → List Event} (hbody : ∀ s, ∀ e ∈ events s, e.Fits Q) (n : Nat) (s : Store) :
    ∀ e ∈ passEvents scope x r body events n s, e.Fits Q := by
  induction n generalizing s with
  | zero => exact List.forall_mem_nil _
  | succ n ih =>
    rw [passEvents]
    refine List.forall_mem_cons.2 ⟨trivial, ?_⟩
    cases (loopNext r).toRun s with
    | error h s₁ => exact List.forall_mem_nil _
    | ok v s₁ =>
      cases v with
      | none => exact List.forall_mem_nil _
      | some v =>
        refine List.forall_mem_cons.2 ⟨trivial, List.forall_mem_append.2 ⟨hbody _, ?_⟩⟩
        cases body (s₁.assign scope x v).2 with
        | error h s₂ => exact List.forall_mem_nil _
        | ok _ s₂ => exact ih s₂

end Run

namespace Script

variable {scope : Scope} {α : Type} {Q : Cells.Invariant} {F : Failure → Prop} {n : Nat}

/-- Host code keeps an invariant in a script that says so, if it does one level deeper. -/
theorem Fails.fits_step
    (ih : ∀ k, n = k + 1 → ∀ {scope : Scope} {α : Type} {F : Failure → Prop} {y : Script scope α},
      Fails Q F y → ∀ s, ∀ e ∈ y.events k s, e.Fits Q)
    {y : Script scope α} (hy : Fails Q F y) (s : Store) : ∀ e ∈ y.events n s, e.Fits Q := by
  have hnone : ∀ e ∈ ([] : List Event), e.Fits Q := List.forall_mem_nil _
  have hsingle {e : Event} (he : e.Fits Q) : ∀ e' ∈ [e], e'.Fits Q := List.forall_mem_singleton.2 he
  have hinside : ∀ {scope : Scope} {α : Type} {F : Failure → Prop} {y : Script scope α}, Fails Q F y →
      ∀ s, ∀ e ∈ inside n y s, e.Fits Q := by
    intro scope α F y hy s
    cases n with
    | zero => exact hnone
    | succ k => exact ih k rfl hy s
  induction hy generalizing s with
  | done =>
    rw [events_done]
    exact hnone
  | andThen _ _ ihy ihf =>
    rw [events_andThen]
    refine List.forall_mem_append.2 ⟨ihy s, ?_⟩
    split
    · exact ihf _ _
    · exact hnone
  | act ha =>
    rw [events_act]
    exact hsingle ⟨_, ha⟩
  | leave =>
    rw [events_eq]
    exact hnone
  | read _ =>
    rw [events_read]
    split
    · exact hinside (fails_evalExpr _ _) s
    · exact hnone
  | assign =>
    rw [events_assign]
    exact hsingle trivial
  | capture _ ihy =>
    rw [events_capture]
    exact List.forall_mem_append.2 ⟨hsingle trivial, List.forall_mem_append.2 ⟨ihy _, hsingle trivial⟩⟩
  | rethrow _ _ _ _ ihy =>
    rw [events_rethrow]
    exact ihy s
  | loop _ ihb =>
    rw [events_loop]
    refine List.forall_mem_append.2 ⟨by simp [Event.Fits], List.forall_mem_append.2 ⟨?_, by simp [Event.Fits]⟩⟩
    exact Run.fits_passEvents ihb n _
  | call _ =>
    rw [events_call]
    refine List.forall_mem_append.2 ⟨hsingle trivial, List.forall_mem_append.2 ⟨?_, hsingle trivial⟩⟩
    exact hinside (fails_renderNodes _) _
  | template _ =>
    rw [events_template]
    exact List.forall_mem_append.2 ⟨hsingle trivial, hinside (fails_renderNodes _) _⟩
  | block _ =>
    rw [events_block]
    refine List.forall_mem_append.2 ⟨hsingle trivial, List.forall_mem_append.2 ⟨?_, hsingle trivial⟩⟩
    exact hinside (fails_renderNodes _) _
  | text _ =>
    rw [events_text]
    exact hinside (fails_textOf _) s

/-- Host code keeps an invariant in everything that a script does that says so. -/
theorem Fails.fits {y : Script scope α} (hy : Fails Q F y) (n : Nat) (s : Store) :
    ∀ e ∈ y.events n s, e.Fits Q := by
  induction n generalizing scope α F s with
  | zero => exact Fails.fits_step (fun k h => absurd h (Nat.zero_ne_add_one k)) hy s
  | succ n ih =>
    refine Fails.fits_step (fun k h => ?_) hy s
    cases h
    exact fun hy s => ih hy s

end Script

/-! ### Blocks in the store -/

namespace Store

/-- Whether a store has a block under its number, which was given out. -/
structure Has (s : Store) (b : Block) : Prop where
  number : b.id < s.nextId
  entry : s.blocks[b.id]? = some b

variable {s s' : Store} {b : Block}

theorem Has.block_ref (h : s.Has b) : s.block b.ref = b := by
  rw [block, Std.TreeMap.getD_eq_getD_getElem?]
  exact congrArg (Option.getD · default) h.entry

theorem Has.of_eq (h : s.Has b) (hcells : s'.toCells = s.toCells) (hblocks : s'.blocks = s.blocks) : s'.Has b := by
  refine ⟨?_, hblocks ▸ h.entry⟩
  rw [hcells]
  exact h.number

theorem Has.of_bare (h : s.Has b) (hbare : s'.bare = s.bare) : s'.Has b :=
  h.of_eq (toCells_of_bare hbare) (blocks_of_bare hbare)

/-- A block with a new number leaves the others alone. -/
theorem Has.insert (h : s.Has b) {b' : Block} (hid : b'.id = s.nextId) :
    (s.blocks.insert b'.id b')[b.id]? = some b := by
  rw [Std.TreeMap.getElem?_insert, if_neg, h.entry]
  have hlt := h.number
  rw [Nat.compare_eq_eq]
  omega

theorem Has.toRun (h : s.Has b) {α : Type} {F : Failure → Prop} {x : Step α}
    (hx : x.Fails (.gaveOut b.id) F) : (x.toRun.after s).Has b := by
  have hcells := hx s.toCells h.number
  rw [Run.after, Step.toRun]
  cases hrun : x s.toCells with
  | ok a c =>
    rw [hrun] at hcells
    exact ⟨hcells, h.entry⟩
  | error e c =>
    rw [hrun] at hcells
    cases e with
    | failure f => exact ⟨hcells.1, h.entry⟩
    | exhausted => exact ⟨hcells, h.entry⟩

theorem Has.act (h : s.Has b) {α : Type} {a : Act α} {F : Failure → Prop} (ha : a.Fails (.gaveOut b.id) F)
    (fuel : Nat) (scope : Scope) : ((a.run fuel scope).after s).Has b := by
  cases a with
  | step x => exact h.toRun ha
  | define body origin => exact ⟨Nat.lt_succ_of_lt h.number, h.insert rfl⟩
  | load place name =>
    obtain ⟨s', hreads, hgives⟩ := Run.gives_load (s := s) (s.root scope.root).loader name
    show ((Run.loadAt scope place name).after s).Has b
    rw [Run.after_loadAt, hgives.after_eq]
    exact h.of_eq hreads.toCells hreads.blocks
  | parse place text =>
    obtain ⟨s', hreads, -, hgives⟩ := Run.gives_parseText (s := s) (s.root scope.root).loader
      (some ("#evaluate " ++ place.text)) text
    show ((Run.parseAt scope place text).after s).Has b
    rw [Run.parseAt, Run.after_mapFailure]
    have hafter := hgives.after_eq
    exact h.of_eq ((congrArg Store.toCells hafter).trans hreads.toCells)
      ((congrArg Store.blocks hafter).trans hreads.blocks)
  | _ => exact ⟨h.number, h.entry⟩

/-- A block stays where host code keeps the numbers that were given out. -/
theorem Has.effect (h : s.Has b) {e : Event} (he : e.Fits (.gaveOut b.id)) : (e.effect s).Has b := by
  cases e with
  | act fuel scope a =>
    obtain ⟨F, ha⟩ := he
    exact h.act ha fuel scope
  | assign scope x v => exact h.of_bare (s.bare_assignIn scope.root x v scope.calls)
  | undo u => exact h.of_bare (s.bare_undo u)
  | newLoop source => exact ⟨h.number, h.entry⟩
  | loopNext r =>
    exact h.toRun (Run.fails_loopNext (Run.fails_streamNext (F := fun _ => True) fun _ => trivial) r)
  | beginCall scope m args body =>
    cases body with
    | none => exact ⟨h.number, h.entry⟩
    | some nodes => exact ⟨Nat.lt_succ_of_lt h.number, h.insert rfl⟩
  | endCall c => exact h.of_bare (s.bare_restoreParams c)
  | template scope t => exact ⟨h.number, h.entry⟩
  | setText text => exact ⟨h.number, h.entry⟩
  | _ => exact he.elim

theorem Has.follow (h : s.Has b) {es : List Event} (hes : ∀ e ∈ es, e.Fits (.gaveOut b.id)) :
    (s.follow es).Has b := by
  induction es generalizing s with
  | nil => exact h
  | cons e es ih =>
    obtain ⟨he, hes⟩ := List.forall_mem_cons.1 hes
    exact ih (h.effect he) hes

/-- A block stays where a script is begun in the middle of a run. -/
theorem Has.reaches {scope scope₁ : Scope} {α β : Type} {k n : Nat} {x : Script scope α} {y : Script scope₁ β}
    {ls : List Layer} {F : Failure → Prop} (h : s.Has b) (hx : Script.Fails (.gaveOut b.id) F x)
    (hy : Reaches k y s' ls n x s) : s'.Has b := by
  obtain ⟨before, after, hevents, rfl⟩ := hy.events
  refine h.follow fun e he => hx.fits n s e ?_
  rw [hevents]
  exact List.mem_append_left _ (List.mem_append_left _ he)

end Store

/-! ### In the middle of a call -/

/-- A script is begun from a store in the middle of a call that was made in the scope `caller` and given the
nodes as a block. -/
inductive GivenBlock (caller : Scope) (nodes : List Node) (c : CallRef) {scope₁ : Scope} {β : Type} (k : Nat)
    (y : Script scope₁ β) (s : Store) : Prop where
  | intro {s₀ m args n ls} (sound : s₀.Sound) (valid : caller.Valid s₀)
      (begins : c = (s₀.beginCall caller m args (some nodes)).1)
      (reaches : Reaches k y s ls n (renderNodes (caller.enter c) m.body)
        (s₀.beginCall caller m args (some nodes)).2)

/-- The name of blocks stands for the block, which has its nodes and the scope of the caller. -/
theorem GivenBlock.lookup_eq {caller scope₁ : Scope} {nodes : List Node} {c : CallRef} {β : Type} {k : Nat}
    {y : Script scope₁ β} {s : Store} (h : GivenBlock caller nodes c k y s) :
    ∃ b : Block, b.scope = caller ∧ b.body = nodes ∧ s.Has b ∧
      s.lookup (caller.enter c) bodyContent = .block b.ref := by
  obtain ⟨sound, valid, rfl, reaches⟩ := h
  rename_i s₀ m args n ls
  -- The call made the block when it began, and the run from there on keeps it.
  let b : Block := ⟨s₀.nextId, nodes, caller, "#@" ++ m.name⟩
  have hvalid := Store.Valid.enter m args (some nodes) valid
  have hlt := hvalid.calls _ List.mem_cons_self
  have hhas : (s₀.beginCall caller m args (some nodes)).2.Has b := by
    refine ⟨Nat.lt_succ_self _, ?_⟩
    show (s₀.blocks.insert b.id b)[b.id]? = some b
    rw [Std.TreeMap.getElem?_insert_self]
  obtain ⟨hprogress, -⟩ := (Store.carried_progress _).reaches reaches
    ⟨.refl (sound.beginCall m args (some nodes) valid), hvalid⟩
  have hblock : (s.call (s₀.beginCall caller m args (some nodes)).1).block = some b.ref := by
    rw [hprogress.grows.block _ hlt,
      Store.block_new_call (congrArg CallRef.index (@Store.beginCall_fst s₀ caller m args (some nodes)))]
    rfl
  refine ⟨b, rfl, rfl, hhas.reaches (fails_renderNodes m.body) reaches, ?_⟩
  rw [Store.lookup, Scope.enter, Store.lookupIn, CallFrame.blockFor?, if_pos rfl, hblock]

end Stencil
