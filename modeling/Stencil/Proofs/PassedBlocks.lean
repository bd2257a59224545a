import Stencil.Proofs.GivenBlocks
import Stencil.Proofs.Parts

/-!
# Blocks that are passed on

A macro may pass on the block given to it, in the body of a call of its own. The text of the last block is that of
the first one, with what the bodies on the way write around it: `Store.LeadsTo.run_blockText`. The first block is
rendered once, and besides this text is only conveyed: `Store.LeadsTo.events_block`.
-/

namespace Stencil

/-! ### References -/

/-- Whether an event asks whether a name is defined. -/
inductive Event.AsksDefined : Event → Prop
  | intro (fuel : Nat) (scope : Scope) (x : String) : AsksDefined (.act fuel scope (.defined x))

namespace Script

variable {scope : Scope} {α β : Type} {n : Nat} {s : Store}

theorem events_map (x : Script scope β) (f : β → α) :
    (x >>= fun b => pure (f b)).events n s = x.events n s := by
  show (andThen x _).events n s = _
  rw [events_andThen]
  cases x.run (Deeper.within n) s with
  | error e s' => exact List.append_nil _
  | ok b s' =>
    show _ ++ (done (f b) : Script scope α).events n s' = _
    rw [events_done]
    exact List.append_nil _

/-- A reference without suffixes asks whether its variable is defined, and reads it. -/
theorem events_reference {x : String} (hx : s.isDefined scope x = true) (place : Place) (quiet lenient : Bool) :
    (evalExpr scope (.reference place x quiet []) lenient).events n s =
      .act n scope (.defined x) :: (read x : Script scope Value).events n s := by
  rw [evalExpr_reference, events_bind_ok (b := true) (by rw [← hx]; rfl), events_act, if_pos rfl]
  exact congrArg _ (events_map _ id)

end Script

/-! ### Texts of blocks -/

/-- What a host makes of the text that a block renders to, if it gives blocks a text. -/
def HostKind.writes : HostKind → Option (String → String)
  | standard => some id
  | shouting => some Text.upper
  | failing => none

namespace Run

variable {α : Type}

theorem map_apply {β : Type} (f : α → β) (x : Run α) (s : Store) :
    (f <$> x) s = match x s with
      | .ok a s' => .ok (f a) s'
      | .error e s' => .error e s' := by
  show EStateM.map f x s = _
  rw [EStateM.map]
  cases x s <;> rfl

theorem mapFailure_id (x : Run α) : mapFailure (fun e => e) x = x := by
  funext s
  rw [mapFailure]
  split
  · exact Eq.symm ‹_›
  · exact Eq.symm ‹_›
  · exact Eq.symm ‹_›

theorem mapFailure_congr {φ : Failure → Failure} {x y : Run α} {s : Store} (h : x s = y s) :
    mapFailure φ x s = mapFailure φ y s := by
  rw [mapFailure, mapFailure, h]

theorem map_congr {β : Type} {f : α → β} {x y : Run α} {s : Store} (h : x s = y s) : (f <$> x) s = (f <$> y) s := by
  rw [map_apply, map_apply, h]

theorem mapFailure_map {β : Type} (φ ψ : Failure → Failure) (f : α → β) (x : Run α) :
    mapFailure φ (f <$> mapFailure ψ x) = f <$> mapFailure (fun e => φ (ψ e)) x := by
  funext s
  simp only [mapFailure, map_apply]
  rcases x s with ⟨a, s'⟩ | ⟨e, s'⟩
  · rfl
  · cases e <;> rfl

/-- Text that is written around captured text, and that is captured itself. -/
theorem capture_around (x : Run Unit) (g : String → String) (φ : Failure → Failure) (before after : String) :
    capture (do
      write before
      let text ← g <$> mapFailure φ (capture x)
      write text
      write after) = (fun text => before ++ g text ++ after) <$> mapFailure φ (capture x) := by
  funext s
  have hstart : write before { s with written := "" } = .ok () { s with written := before } := by
    show EStateM.Result.ok () { s with written := "" ++ before } = _
    rw [String.empty_append]
  rw [map_apply, capture, bind_ok hstart]
  rcases hx : x { s with written := "" } with ⟨u, s'⟩ | ⟨e, s'⟩
  · have htext (t : String) : mapFailure φ (capture x) { s with written := t } =
        .ok s'.written { s' with written := t } := by
      rw [mapFailure, capture, hx]
    rw [htext, bind_ok ((map_apply ..).trans (by rw [htext]))]
    rfl
  · obtain ⟨e', htext⟩ : ∃ e', ∀ t, mapFailure φ (capture x) { s with written := t } =
        .error e' { s' with written := t } := by
      simp only [mapFailure, capture, hx]
      cases e <;> exact ⟨_, fun _ => rfl⟩
    rw [htext, bind_eq_error.2 (.inl ((map_apply ..).trans (by rw [htext])))]

end Run

/-- The text of a block is what it renders to, as the host writes it. -/
theorem run_textOf_block {host : HostKind} {f : String → String} (hf : host.writes = some f) (scope : Scope)
    (b : BlockRef) (d : Deeper) (s : Store) :
    (host.textOf (.block b) : Script scope String).run d s = (f <$> d.blockText (s.block b)) s := by
  rw [Run.map_apply]
  cases host with
  | standard =>
    cases hf
    show d.blockText (s.block b) s = _
    cases d.blockText (s.block b) s <;> rfl
  | shouting =>
    cases hf
    show EStateM.bind (d.blockText (s.block b)) _ s = _
    rw [EStateM.bind]
    cases d.blockText (s.block b) s <;> rfl
  | failing => cases hf

/-! ### Bodies that pass a block on -/

/-- Nodes of text. -/
def textNodes (texts : List (Place × String)) : List Node :=
  texts.map fun t => .text t.1 t.2

/-- The text of such nodes. -/
def textOfNodes : List (Place × String) → String
  | [] => ""
  | t :: ts => t.2 ++ textOfNodes ts

/-- The body of a call that passes on the block given to the macro around it, with text before and after. -/
structure PassingBody where
  before : List (Place × String)
  place : Place
  quiet : Bool
  after : List (Place × String)

namespace PassingBody

/-- The nodes of such a body. -/
def nodes (p : PassingBody) : List Node :=
  textNodes p.before ++ .output (.reference p.place bodyContent p.quiet []) :: textNodes p.after

/-- What such a body makes of the text of the block. -/
def around (p : PassingBody) (text : String) : String :=
  textOfNodes p.before ++ text ++ textOfNodes p.after

end PassingBody

theorem run_textNodes (scope : Scope) (d : Deeper) (texts : List (Place × String)) :
    (renderNodes scope (textNodes texts)).run d = Run.write (textOfNodes texts) := by
  funext s
  induction texts generalizing s with
  | nil =>
    show EStateM.Result.ok () s = .ok () { s with written := s.written ++ "" }
    rw [String.append_empty]
  | cons t ts ih =>
    have htext : (renderNode scope (.text t.1 t.2)).run d s = .ok () { s with written := s.written ++ t.2 } := by
      rw [renderNode]
      rfl
    rw [textNodes, List.map_cons, renderNodes, Script.run_bind, Run.bind_ok htext]
    refine (ih _).trans ?_
    show EStateM.Result.ok () { s with written := s.written ++ t.2 ++ textOfNodes ts } = _
    rw [String.append_assoc]
    rfl

/-- A reference to a name that stands for a block gives the block. -/
theorem run_reference_block {scope : Scope} {s : Store} {x : String} {b : BlockRef}
    (hx : s.lookup scope x = .block b) (d : Deeper) (place : Place) (quiet lenient : Bool) :
    (evalExpr scope (.reference place x quiet []) lenient).run d s = .ok (.block b) s := by
  have hread : (Script.read x : Script scope Value).run d s = .ok (.block b) s := by
    show Run.read _ _ _ _ = _
    rw [Run.read_eq, hx]
    rfl
  rw [run_evalExpr_reference, Store.isDefined_eq, hx, Binding.isDefined, if_pos rfl, Script.run_bind,
    Run.bind_ok hread]
  rfl

/-- Writing out a name that stands for a block writes the text of the block. -/
theorem run_output_block {scope : Scope} {s : Store} {x : String} {b : BlockRef} (hx : s.lookup scope x = .block b)
    (d : Deeper) (place : Place) (quiet : Bool) :
    (renderNode scope (.output (.reference place x quiet []))).run d s = (do
      let text ← Run.mapFailure (Failure.at place)
        (((s.root scope.root).host.textOf (.block b) : Script scope String).run d)
      Run.write text) s := by
  rw [renderNode, Script.run_bind, Run.bind_ok (run_reference_block hx d place quiet false)]
  rfl

/-- What is written for a block that is passed on, where its own text is given; the last call is first. -/
def passedText (f : String → String) : List PassingBody → String → String
  | [], text => text
  | p :: ps, text => p.around (f (passedText f ps text))

/-- What a failure in a block becomes that is passed on. -/
def passedFailure : List PassingBody → Failure → Failure
  | [], e => e
  | p :: ps, e => (passedFailure ps e).at p.place

/-- A block is the first of all, or its body passes on the block that the name of blocks stands for in its
scope, and so on to the first; the last body is first in the list. -/
inductive Store.LeadsTo (s : Store) (first : Block) : List PassingBody → Block → Prop where
  | here : s.block first.ref = first → LeadsTo s first [] first
  | further {ps b b'} (p : PassingBody) : LeadsTo s first ps b → s.block b'.ref = b' → b'.body = p.nodes →
      b'.scope.root = first.scope.root → s.lookup b'.scope bodyContent = .block b.ref →
      LeadsTo s first (p :: ps) b'

theorem Store.lookup_written (s : Store) (text : String) (scope : Scope) (x : String) :
    { s with written := text }.lookup scope x = s.lookup scope x :=
  lookupIn_congr (fun _ _ => ⟨rfl, rfl⟩) rfl

namespace Store.LeadsTo

variable {s : Store} {first b : Block} {ps : List PassingBody} {f : String → String}

theorem block_ref (h : s.LeadsTo first ps b) : s.block b.ref = b := by
  cases h with
  | here hblock => exact hblock
  | further _ _ hblock => exact hblock

theorem written (h : s.LeadsTo first ps b) (text : String) : { s with written := text }.LeadsTo first ps b := by
  induction h with
  | here hblock => exact .here hblock
  | further p _ hblock hbody hroot hlookup ih =>
    exact .further p ih hblock hbody hroot ((s.lookup_written ..).trans hlookup)

/-- The text of the last block is made of that of the first one, which is rendered one level deeper for each body
that passes it on. -/
theorem run_blockText (h : s.LeadsTo first ps b) (hf : (s.root first.scope.root).host.writes = some f) (j : Nat) :
    (Deeper.within (j + ps.length + 1)).blockText b s =
      (passedText f ps <$> Run.mapFailure (passedFailure ps) ((Deeper.within (j + 1)).blockText first)) s := by
  induction ps generalizing s b with
  | nil =>
    cases h
    show _ = ((fun text => text) <$> Run.mapFailure (fun e => e) _) s
    rw [Run.mapFailure_id, id_map']
    rfl
  | cons p ps ih =>
    cases h with
    | @further _ b' _ _ hrest hblock hbody hroot hlookup =>
      let d := Deeper.within (j + ps.length + 1)
      let output : Node := .output (.reference p.place bodyContent p.quiet [])
      let texts : Run String := (fun text => f (passedText f ps text)) <$>
        Run.mapFailure (passedFailure (p :: ps)) ((Deeper.within (j + 1)).blockText first)
      -- Where the output begins, the text before it is written already.
      have houtput (written : String) : (renderNode b.scope output).run d { s with written := written } =
          (do let text ← texts; Run.write text) { s with written := written } := by
        have hrest' := hrest.written written
        have hhost : (s.root b.scope.root).host.writes = some f := by rw [hroot, hf]
        have htext := run_textOf_block hhost b.scope b'.ref d { s with written := written }
        rw [hrest'.block_ref] at htext
        have hall := htext.trans (Run.map_congr (ih hrest' hf))
        rw [run_output_block ((s.lookup_written ..).trans hlookup)]
        refine Run.bind_eq_bind ((Run.mapFailure_congr hall).trans ?_) fun _ _ _ => rfl
        rw [Functor.map_map]
        exact congrFun (Run.mapFailure_map ..) _
      have hrender : (renderNodes b.scope b.body).run d { s with written := "" } = (do
          Run.write (textOfNodes p.before)
          let text ← texts
          Run.write text
          Run.write (textOfNodes p.after)) { s with written := "" } := by
        rw [hbody, PassingBody.nodes, run_renderNodes_append, run_textNodes, renderNodes, Script.run_bind,
          run_textNodes]
        refine Run.bind_eq_bind rfl fun _ s' hs' => ?_
        cases hs'
        rw [← bind_assoc]
        exact Run.bind_eq_bind (houtput _) fun _ _ _ => rfl
      show Run.capture ((renderNodes b.scope b.body).run d) s = _
      rw [Run.capture, hrender]
      exact congrFun (Run.capture_around ..) s

end Store.LeadsTo

/-! ### What happens when the text of a block is passed on -/

/-- Whether an event only conveys the text of a block: it asks for a name or for the host, or concerns the text
written so far. -/
inductive Event.Conveys : Event → Prop
  | asks {e : Event} (h : e.AsksDefined) : Conveys e
  | host (fuel : Nat) (scope : Scope) : Conveys (.act fuel scope .host)
  | counts (fuel : Nat) (scope : Scope) : Conveys (.act fuel scope (.step Run.objectCount))
  | writes (fuel : Nat) (scope : Scope) (text : String) : Conveys (.act fuel scope (.write text))
  | captures (text : String) : Conveys (.setText text)

/-- Whether events are some others, once, and besides these only convey text. -/
def Surrounds (core es : List Event) : Prop :=
  ∃ before after, es = before ++ core ++ after ∧ ∀ e ∈ before ++ after, e.Conveys

namespace Script

variable {scope : Scope} {α β : Type} {n : Nat} {s : Store}

theorem conveys_act {a : Act α} (h : (Event.act n scope a).Conveys) :
    ∀ e ∈ (act a : Script scope α).events n s, e.Conveys := by
  rw [events_act]
  exact List.forall_mem_singleton.2 h

theorem conveys_done (a : α) : ∀ e ∈ (done a : Script scope α).events n s, e.Conveys := by
  rw [events_done]
  exact List.forall_mem_nil _

theorem conveys_bind {x : Script scope β} {f : β → Script scope α} (hx : ∀ e ∈ x.events n s, e.Conveys)
    (hf : ∀ b s', ∀ e ∈ (f b).events n s', e.Conveys) : ∀ e ∈ (x >>= f).events n s, e.Conveys := by
  show ∀ e ∈ (andThen x f).events n s, e.Conveys
  rw [events_andThen]
  refine List.forall_mem_append.2 ⟨hx, ?_⟩
  split
  · exact hf _ _
  · exact List.forall_mem_nil _

end Script

namespace Surrounds

variable {core es es' : List Event}

theorem refl (core : List Event) : Surrounds core core :=
  ⟨[], [], by simp, by simp⟩

theorem append_left (h : Surrounds core es) (hes : ∀ e ∈ es', e.Conveys) : Surrounds core (es' ++ es) := by
  obtain ⟨before, after, rfl, hconveys⟩ := h
  refine ⟨es' ++ before, after, by simp, ?_⟩
  rw [List.append_assoc]
  exact List.forall_mem_append.2 ⟨hes, hconveys⟩

theorem append_right (h : Surrounds core es) (hes : ∀ e ∈ es', e.Conveys) : Surrounds core (es ++ es') := by
  obtain ⟨before, after, rfl, hconveys⟩ := h
  refine ⟨before, after ++ es', by simp, ?_⟩
  rw [← List.append_assoc]
  exact List.forall_mem_append.2 ⟨hconveys, hes⟩

variable {scope : Scope} {α β : Type} {n : Nat} {s s' : Store} {x : Script scope β} {f : β → Script scope α}

/-- What is done first surrounds, and what follows only conveys text. -/
theorem first (h : Surrounds core (x.events n s)) (hf : ∀ b s', ∀ e ∈ (f b).events n s', e.Conveys) :
    Surrounds core ((x >>= f).events n s) := by
  show Surrounds core ((Script.andThen x f).events n s)
  rw [Script.events_andThen]
  refine h.append_right ?_
  split
  · exact hf _ _
  · exact List.forall_mem_nil _

/-- What is done first only conveys text, and what follows surrounds. -/
theorem later {b : β} (hx : x.run (Deeper.within n) s = .ok b s') (hconveys : ∀ e ∈ x.events n s, e.Conveys)
    (h : Surrounds core ((f b).events n s')) : Surrounds core ((x >>= f).events n s) := by
  rw [Script.events_bind_ok hx]
  exact h.append_left hconveys

end Surrounds

/-- Getting the text of a block renders it. -/
theorem events_textOf_block {host : HostKind} {f : String → String} (hf : host.writes = some f) (scope : Scope)
    (b : BlockRef) (n : Nat) (s : Store) :
    (host.textOf (.block b) : Script scope String).events n s =
      .act n scope (.step Run.objectCount) :: (.block b : Script scope String).events n s := by
  have hstandard : (textOf (.block b) : Script scope String).events n s =
      .act n scope (.step Run.objectCount) :: (.block b : Script scope String).events n s := by
    show ((Script.act (.step Run.objectCount) : Script scope Nat) >>= fun n =>
      formattedWithin (n + 1) (.block b)).events n s = _
    have hcount : (Script.act (.step Run.objectCount) : Script scope Nat).run (Deeper.within n) s =
        .ok s.objects.size s := rfl
    rw [Script.events_bind_ok hcount, Script.events_act]
    rfl
  cases host with
  | standard => exact hstandard
  | shouting => exact (Script.events_map _ _).trans hstandard
  | failing => cases hf

theorem conveys_textNodes (scope : Scope) (n : Nat) (texts : List (Place × String)) (s : Store) :
    ∀ e ∈ (renderNodes scope (textNodes texts)).events n s, e.Conveys := by
  induction texts generalizing s with
  | nil =>
    rw [textNodes, List.map_nil, renderNodes]
    exact Script.conveys_done ()
  | cons t ts ih =>
    rw [textNodes, List.map_cons, renderNodes, renderNode]
    exact Script.conveys_bind (Script.conveys_act (.writes ..)) fun _ s' => ih s'

/-- What happens in some nodes behind nodes of text. -/
theorem Surrounds.textNodes {core : List Event} {scope : Scope} {n : Nat} {s : Store} {nodes : List Node}
    (h : ∀ text, Surrounds core ((renderNodes scope nodes).events n { s with written := text }))
    (texts : List (Place × String)) (text : String) :
    Surrounds core ((renderNodes scope (textNodes texts ++ nodes)).events n { s with written := text }) := by
  induction texts generalizing text with
  | nil => exact h text
  | cons t ts ih =>
    rw [Stencil.textNodes, List.map_cons, List.cons_append, renderNodes, renderNode]
    exact .later rfl (Script.conveys_act (.writes ..)) (ih _)

/-- Writing out a name that stands for a block gets its text. -/
theorem Surrounds.output {core : List Event} {scope : Scope} {n : Nat} {s : Store} {x : String} {b : BlockRef}
    {f : String → String} (hf : (s.root scope.root).host.writes = some f) (hx : s.lookup scope x = .block b)
    (place : Place) (quiet : Bool) (h : Surrounds core ((Script.block b : Script scope String).events n s)) :
    Surrounds core ((renderNode scope (.output (.reference place x quiet []))).events n s) := by
  have hdefined : s.isDefined scope x = true := by
    rw [Store.isDefined_eq, hx]
    rfl
  rw [renderNode]
  refine .later (run_reference_block hx _ place quiet false) ?_ (.first (.later rfl ?_ ?_) ?_)
  · rw [Script.events_reference hdefined, Script.events_read, hx]
    exact List.forall_mem_singleton.2 (.asks ⟨_, _, _⟩)
  · exact Script.conveys_act (.host ..)
  · rw [Script.events_rethrow, events_textOf_block hf]
    exact h.append_left (List.forall_mem_singleton.2 (.counts ..))
  · exact fun _ _ => Script.conveys_act (.writes ..)

/-- Getting the text of the last block renders the first one once, and besides this only conveys text. -/
theorem Store.LeadsTo.events_block {s : Store} {first b : Block} {ps : List PassingBody} {f : String → String}
    (h : s.LeadsTo first ps b) (hf : (s.root first.scope.root).host.writes = some f) (j : Nat) (scope : Scope) :
    Surrounds ((renderNodes first.scope first.body).events j { s with written := "" })
      ((Script.block b.ref : Script scope String).events (j + ps.length + 1) s) := by
  induction ps generalizing s b scope with
  | nil =>
    rw [Script.events_block, h.block_ref]
    cases h
    exact ((Surrounds.refl _).append_right (List.forall_mem_singleton.2 (.captures _))).append_left
      (List.forall_mem_singleton.2 (.captures _))
  | cons p ps ih =>
    rw [Script.events_block, h.block_ref]
    cases h with
    | @further _ b' _ _ hrest hblock hbody hroot hlookup =>
      have hnodes (text : String) : Surrounds ((renderNodes first.scope first.body).events j { s with written := "" })
          ((renderNodes b.scope (.output (.reference p.place bodyContent p.quiet []) :: textNodes p.after)).events
            (j + ps.length + 1) { s with written := text }) := by
        rw [renderNodes]
        refine .first ?_ fun _ s' => conveys_textNodes _ _ _ s'
        have hhost : (s.root b.scope.root).host.writes = some f := by rw [hroot, hf]
        exact .output (s := { s with written := text }) hhost ((s.lookup_written ..).trans hlookup) _ _
          (ih (hrest.written text) hf _)
      have hrender := Surrounds.textNodes hnodes p.before ""
      rw [← PassingBody.nodes, ← hbody] at hrender
      exact (hrender.append_right (List.forall_mem_singleton.2 (.captures _))).append_left
        (List.forall_mem_singleton.2 (.captures _))

end Stencil
