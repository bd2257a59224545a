import Stencil.Proofs.Break
import Stencil.Proofs.EventFrame
import Stencil.Proofs.LookAhead
import Stencil.Proofs.Renderings

/-!
# A loop and its items

The body of a loop may query the state of the loop at any moment, and a query may take the next item to see
whether there is one. `Undisturbed` says that nothing else in a rendering of the body matters to the items
that are left. Then a rendering keeps what is left at every moment (`Undisturbed.left`), so the loop renders its
body once for each item, in order, and every query is answered by the place of the item:
`Run.Renders.goesThrough`.
-/

namespace Stencil

variable {r : LoopRef} {vs : List Value} {i : Int}

theorem Step.toRun_ok {α : Type} {x : Step α} {a : α} {t : Store} {c : Cells} (h : x t.toCells = .ok a c) :
    x.toRun t = .ok a { t with toCells := c } := by
  rw [toRun, h]

/-! ### Queries in an evaluation -/

/-- Whether a query of the state of a loop has an answer, as a property of the state and in an expression that
names it. -/
structure Query.Answered (q : Query) (r : LoopRef) (answer : Value) (t : Store) : Prop where
  property : ∀ (scope : Scope) (d : Deeper), ∃ t',
    (Host.propertyOf (.loop r) q.name : Script scope Value).run d t = .ok answer t'
  expression : ∀ (scope : Scope) (d : Deeper) (place : Place) (y : String) (quiet lenient : Bool),
    t.lookup scope y = .stored (some (.loop r)) → ∃ t',
      (evalExpr scope (.reference place y quiet [.member q.name]) lenient).run d t = .ok answer t'

namespace Cells.Left

variable {t : Store} {scope : Scope}

/-- The property of the state of a loop that a query reads. -/
theorem propertyOf (h : t.toCells.Left r vs i) (q : Query) (scope : Scope) :
    ∃ c, c.Left r vs i ∧ (∀ d, (Host.propertyOf (.loop r) q.name : Script scope Value).run d t =
        .ok (q.answer i vs.head?.isSome) { t with toCells := c }) ∧
      ∀ n, (Host.propertyOf (.loop r) q.name : Script scope Value).events n t =
        [.act n scope (.step (Host.candidates (.loop r) [] (propertyNames q.name)))] := by
  obtain ⟨c, hcandidates, hleft⟩ := h.candidates_query q
  have hname : q.name.isEmpty = false := by cases q <;> decide +kernel
  refine ⟨c, hleft, fun d => ?_, fun n => ?_⟩
  · rw [Host.propertyOf, hname]
    · exact Run.bind_ok (Step.toRun_ok hcandidates)
    · intro _ hmap
      cases hmap
  · rw [Host.propertyOf, hname]
    · have hrun : (Script.act (.step (Host.candidates (.loop r) [] (propertyNames q.name))) :
          Script scope _).run (Deeper.within n) t = _ := Step.toRun_ok hcandidates
      refine (Script.events_bind_ok hrun).trans ?_
      rw [Script.events_act, Script.events_eq]
      rfl
    · intro _ hmap
      cases hmap

/-- A query in an expression is answered by the index of the current item and whether an item is left. It uses
the host for nothing but the query. -/
theorem evalExpr_query (h : t.toCells.Left r vs i) (q : Query) {y : String}
    (hy : t.lookup scope y = .stored (some (.loop r))) (place : Place) (quiet lenient : Bool) :
    ∃ c, c.Left r vs i ∧ (∀ d,
      (evalExpr scope (.reference place y quiet [.member q.name]) lenient).run d t =
        .ok (q.answer i vs.head?.isSome) { t with toCells := c }) ∧
      ∀ n, (evalExpr scope (.reference place y quiet [.member q.name]) lenient).events n t =
        [.act n scope (.defined y),
          .act n scope (.step (Host.candidates (.loop r) [] (propertyNames q.name)))] := by
  obtain ⟨c, hleft, hproperty, hevents⟩ := h.propertyOf q scope
  have hdefined : t.isDefined scope y = true := by
    rw [Store.isDefined_eq, hy]
    rfl
  have hread (d : Deeper) : (Script.read y : Script scope Value).run d t = .ok (.loop r) t := by
    show Run.read d scope y t = _
    rw [Run.read_eq, hy]
    rfl
  have hsuffix (d : Deeper) (source : Unit → String) :
      (evalSuffix scope place source (.member q.name) (.loop r)).run d t =
        .ok (q.answer i vs.head?.isSome) { t with toCells := c } := by
    rw [evalSuffix]
    show Run.mapFailure _ _ t = _
    rw [Run.mapFailure, hproperty]
  have hisDefined (d : Deeper) : (Script.act (.defined y) : Script scope Bool).run d t =
      .ok (t.isDefined scope y) t := rfl
  refine ⟨c, hleft, fun d => ?_, fun n => ?_⟩
  · have hsuffixes : (evalSuffixes scope place (referenceSource y quiet) [] [.member q.name] (.loop r)).run d t =
        .ok (q.answer i vs.head?.isSome) { t with toCells := c } := by
      rw [evalSuffixes, Script.run_bind, Run.bind_ok (hsuffix d _), evalSuffixes]
      · rfl
      all_goals intros; contradiction
    rw [evalExpr, Script.run_bind]
    refine (Run.bind_ok (hisDefined d)).trans ?_
    rw [hdefined, if_pos rfl]
    exact (Run.bind_ok (hread d)).trans hsuffixes
  · have hsuffixes : (evalSuffixes scope place (referenceSource y quiet) [] [.member q.name] (.loop r)).events n t =
        [.act n scope (.step (Host.candidates (.loop r) [] (propertyNames q.name)))] := by
      rw [evalSuffixes, Script.events_bind_ok (hsuffix _ _), evalSuffix, Script.events_rethrow, hevents,
        evalSuffixes, Script.events_eq]
      · rfl
      all_goals intros; contradiction
    have hnone : (Script.read y : Script scope Value).events n t = [] := by
      rw [Script.events_eq, Script.eventsIn, hy]
    rw [evalExpr]
    refine (Script.events_bind_ok (hisDefined _)).trans ?_
    rw [hdefined, if_pos rfl, Script.events_bind_ok (hread _), hnone, hsuffixes, Script.events_act]
    rfl

/-- Every query is answered by the index of the current item and whether an item is left. -/
theorem answered (h : t.toCells.Left r vs i) (q : Query) : q.Answered r (q.answer i vs.head?.isSome) t := by
  refine ⟨fun scope d => ?_, fun scope d place y quiet lenient hy => ?_⟩
  · obtain ⟨c, -, hproperty, -⟩ := h.propertyOf q scope
    exact ⟨_, hproperty d⟩
  · obtain ⟨c, -, hexpr, -⟩ := h.evalExpr_query q hy place quiet lenient
    exact ⟨_, hexpr d⟩

end Cells.Left

/-! ### What a rendering does to the items that are left -/

/-- New loops do not matter to what is left to a loop. -/
theorem Cells.Left.congr {c c' : Cells} (h : c.Left r vs i) (hlists : c'.lists = c.lists)
    (hstreams : c'.streams = c.streams) (hsize : c.loops.size ≤ c'.loops.size)
    (hloops : ∀ k < c.loops.size, c'.loops.get k = c.loops.get k) : c'.Left r vs i := by
  obtain ⟨hr, hindex, us, hyields, hvs⟩ := h
  rw [Left, hloops r.index hr]
  exact ⟨Nat.lt_of_lt_of_le hr hsize, hindex, us,
    hyields.congr hlists hstreams hsize fun k _ hk => hloops k hk, hvs⟩

/-- An assignment changes nothing that a loop takes its items from. -/
theorem Store.cells_assign (s : Store) (scope : Scope) (x : String) (v : Value) :
    (s.assign scope x v).2.toCells = s.toCells :=
  toCells_of_bare (s.bare_assignIn scope.root x v scope.calls)

namespace Event

/-- Whether an event uses what a loop takes its items from: the host is used, or a loop takes an item. -/
def UsesCells : Event → Prop
  | act _ _ (.step _) => True
  | loopNext _ => True
  | outside .. => True
  | _ => False

/-- Whether an event looks for members of the state of a loop. -/
inductive Queries (r : LoopRef) : Event → Prop
  | property (fuel : Nat) (scope : Scope) (found : List (String × Member)) (names : List String) :
      Queries r (.act fuel scope (.step (Host.candidates (.loop r) found names)))
  | method (fuel : Nat) (scope : Scope) (name : String) :
      Queries r (.act fuel scope (.step (Member.find (.loop r) name)))

/-- Whether an event leaves what is left to a loop as it is, and the index of its current item. -/
def Spares (r : LoopRef) (e : Event) (t : Store) : Prop :=
  ∀ vs i, t.toCells.Left r vs i → (e.effect t).toCells.Left r vs i

variable {e : Event} {t : Store}

theorem Spares.of_cells (h : (e.effect t).toCells = t.toCells) : e.Spares r t := by
  intro vs i hleft
  rw [h]
  exact hleft

theorem Queries.spares (h : e.Queries r) (t : Store) : e.Spares r t := by
  intro vs i hleft
  cases h with
  | property fuel scope found names =>
    obtain ⟨found', c, hrun, hleft'⟩ := hleft.candidates found names
    show ((Step.toRun _).after t).toCells.Left r vs i
    rw [Run.after, Step.toRun_ok hrun]
    exact hleft'
  | method fuel scope name =>
    obtain ⟨m, c, hrun, hleft'⟩ := hleft.find name
    show ((Step.toRun _).after t).toCells.Left r vs i
    rw [Run.after, Step.toRun_ok hrun]
    exact hleft'

/-- An act that does not use the host spares every loop. -/
theorem spares_act {fuel : Nat} {scope : Scope} {α : Type} {a : Act α} (h : ¬ (act fuel scope a).UsesCells)
    (t : Store) : (act fuel scope a).Spares r t := by
  cases a with
  | step x => exact absurd trivial h
  | define body origin => exact fun vs i hleft => hleft.congr rfl rfl (Nat.le_refl _) fun _ _ => rfl
  | load place name =>
    refine .of_cells ?_
    obtain ⟨s', hreads, hgives⟩ := Run.gives_load (s := t) (t.root scope.root).loader name
    show ((Run.loadAt scope place name).after t).toCells = _
    rw [Run.after_loadAt, hgives.after_eq, hreads.toCells]
  | parse place text =>
    refine .of_cells ?_
    obtain ⟨s', hreads, -, hgives⟩ := Run.gives_parseText (s := t) (t.root scope.root).loader
      (some ("#evaluate " ++ place.text)) text
    show ((Run.parseAt scope place text).after t).toCells = _
    rw [Run.parseAt, Run.after_mapFailure]
    exact (congrArg Store.toCells hgives.after_eq).trans hreads.toCells
  | _ => exact .of_cells rfl

/-- What neither uses the host nor takes an item of a loop spares every loop. -/
theorem spares_of_not_usesCells (h : ¬ e.UsesCells) (t : Store) : e.Spares r t := by
  cases e with
  | act fuel scope a => exact spares_act h t
  | assign scope x v => exact .of_cells (t.cells_assign scope x v)
  | undo u => exact .of_cells (Store.toCells_of_bare (t.bare_undo u))
  | newLoop source =>
    intro vs i hleft
    refine hleft.congr rfl rfl ?_ fun k hk => ?_
    · show t.loops.size ≤ (t.loops.alloc ⟨source, none, -1⟩).size
      simp
    · show (t.loops.alloc ⟨source, none, -1⟩).get k = t.loops.get k
      rw [Heap.get_alloc, if_neg (Nat.ne_of_lt hk)]
  | beginCall scope m args body =>
    intro vs i hleft
    cases body <;> exact hleft.congr rfl rfl (Nat.le_refl _) fun _ _ => rfl
  | endCall c => exact .of_cells (Store.toCells_of_bare (t.bare_restoreParams c))
  | load q name =>
    obtain ⟨s', hreads, hgives⟩ := Run.gives_load (s := t) q name
    exact .of_cells ((congrArg Store.toCells hgives.after_eq).trans hreads.toCells)
  | parseResource q name =>
    obtain ⟨s', hreads, -, hgives⟩ := Run.gives_parseResource (s := t) q name
    exact .of_cells ((congrArg Store.toCells hgives.after_eq).trans hreads.toCells)
  | parseText q resource text =>
    obtain ⟨s', hreads, -, hgives⟩ := Run.gives_parseText (s := t) q resource text
    exact .of_cells ((congrArg Store.toCells hgives.after_eq).trans hreads.toCells)
  | loopNext => exact absurd trivial h
  | outside => exact absurd trivial h
  | _ => exact .of_cells rfl

end Event

/-- Whether events that follow each other change nothing about what is left to a loop, but for queries of its
state: neither does the host in any other use, nor does another loop that takes an item. -/
def Undisturbed (r : LoopRef) (t : Store) (es : List Event) : Prop :=
  ∀ before e after, es = before ++ e :: after → e.UsesCells → e.Queries r ∨ e.Spares r (t.follow before)

namespace Undisturbed

variable {t : Store} {es : List Event}

theorem of_queries (h : ∀ e ∈ es, e.UsesCells → e.Queries r) : Undisturbed r t es := by
  rintro before e after rfl he
  exact .inl (h e (by simp) he)

/-- At every moment what was left to a loop at first is left, with the same index. -/
theorem left (h : Undisturbed r t es) (hleft : t.toCells.Left r vs i) {before after : List Event}
    (hes : es = before ++ after) : (t.follow before).toCells.Left r vs i := by
  induction before generalizing t es with
  | nil => exact hleft
  | cons e before ih =>
    have hspares : e.Spares r t := by
      by_cases he : e.UsesCells
      · rcases h [] e (before ++ after) hes he with hqueries | hspares
        · exact hqueries.spares t
        · exact hspares
      · exact e.spares_of_not_usesCells he t
    have hrest : Undisturbed r (e.effect t) (before ++ after) := fun before' e' after' hes' he' =>
      h (e :: before') e' after' (by rw [hes, List.cons_append, hes', List.cons_append]) he'
    exact ih hrest (hspares vs i hleft) rfl

end Undisturbed

/-! ### The renderings of a loop -/

namespace Run

variable {scope : Scope} {x : String} {body : Run Unit} {n : Nat} {s : Store} {ρs : List Rendering}
  {result : EStateM.Result Halt Store Unit}

/-- Whether the renderings of a loop go through its items in order, each leaving the items after its own, and
end with the last item or where the body ends early. -/
structure GoesThrough (r : LoopRef) (vs : List Value) (i : Int) (body : Run Unit) (ρs : List Rendering)
    (result : EStateM.Result Halt Store Unit) : Prop where
  items : ρs.map Rendering.item <+: vs
  left : ∀ k (hk : k < ρs.length), ρs[k].start.toCells.Left r (vs.drop (k + 1)) (i + 1 + k)
  stops : ∀ k (hk : k < ρs.length) e t, body ρs[k].start = .error e t →
    ρs.length = k + 1 ∧ result = .error e t
  complete : (∀ ρ ∈ ρs, ∃ t, body ρ.start = .ok () t) →
    ρs.map Rendering.item = vs ∧ ∃ t, result = .ok () t

/-- One more rendering before the others. -/
theorem GoesThrough.cons {v : Value} {t t' : Store} (hleft : t.toCells.Left r vs (i + 1))
    (hbody : body t = .ok () t') (h : GoesThrough r vs (i + 1) body ρs result) :
    GoesThrough r (v :: vs) i body (⟨v, t⟩ :: ρs) result := by
  refine ⟨?_, fun k hk => ?_, fun k hk e u he => ?_, fun hall => ?_⟩
  · rw [List.map_cons]
    exact (List.prefix_cons_inj v).2 h.items
  · cases k with
    | zero => simpa using hleft
    | succ k =>
      have hrest := h.left k (Nat.lt_of_succ_lt_succ hk)
      have hindex : i + 1 + 1 + (k : Int) = i + 1 + ((k + 1 : Nat) : Int) := by omega
      rw [hindex] at hrest
      exact hrest
  · cases k with
    | zero =>
      rw [List.getElem_cons_zero, hbody] at he
      cases he
    | succ k =>
      obtain ⟨hlength, hresult⟩ := h.stops k (Nat.lt_of_succ_lt_succ hk) e u he
      exact ⟨congrArg Nat.succ hlength, hresult⟩
  · obtain ⟨hitems, hresult⟩ := h.complete fun ρ hρ => hall ρ (List.mem_cons_of_mem _ hρ)
    exact ⟨by rw [List.map_cons, hitems], hresult⟩

/-- A loop goes through the items that are left to it, if its body keeps what is left. The induction follows
the passes. -/
theorem Renders.goesThrough (h : Renders scope x r body n s ρs result) (hleft : s.toCells.Left r vs i)
    (hn : vs.length < n) (hbody : ∀ t, Pass scope x r body s t → ∀ vs i, t.toCells.Left r vs i →
      (body.after t).toCells.Left r vs i) : GoesThrough r vs i body ρs result := by
  induction h generalizing vs i with
  | exhausted => exact absurd hn (Nat.not_lt_zero _)
  | @done n s s₁ hnext =>
    obtain ⟨c, hloop, -⟩ := hleft.loopNext
    rw [Step.toRun_ok hloop] at hnext
    obtain ⟨hhead, -⟩ := EStateM.Result.ok.inj hnext
    obtain rfl := List.head?_eq_none_iff.1 hhead
    exact ⟨List.prefix_refl _, fun k hk => absurd hk (Nat.not_lt_zero _),
      fun k hk => absurd hk (Nat.not_lt_zero _), fun _ => ⟨rfl, s₁, rfl⟩⟩
  | failed hnext =>
    obtain ⟨c, hloop, -⟩ := hleft.loopNext
    rw [Step.toRun_ok hloop] at hnext
    cases hnext
  | @stopped n s s₁ s₂ v e hnext hstop =>
    obtain ⟨c, hloop, hrest⟩ := hleft.loopNext
    rw [Step.toRun_ok hloop] at hnext
    obtain ⟨hhead, rfl⟩ := EStateM.Result.ok.inj hnext
    obtain ⟨us, rfl⟩ := List.head?_eq_some_iff.1 hhead
    refine ⟨⟨us, rfl⟩, fun k hk => ?_, fun k hk e' t he => ?_, fun hall => ?_⟩
    · obtain rfl := Nat.lt_one_iff.1 hk
      rw [List.getElem_cons_zero, Store.cells_assign]
      simpa using hrest
    · obtain rfl := Nat.lt_one_iff.1 hk
      exact ⟨rfl, hstop.symm.trans he⟩
    · obtain ⟨t, ht⟩ := hall _ (List.mem_singleton_self _)
      cases hstop.symm.trans ht
  | @further n s s₁ s₂ v ρs result hnext hok _ ih =>
    obtain ⟨c, hloop, hrest⟩ := hleft.loopNext
    have hnext' := hnext
    rw [Step.toRun_ok hloop] at hnext'
    obtain ⟨hhead, rfl⟩ := EStateM.Result.ok.inj hnext'
    obtain ⟨us, rfl⟩ := List.head?_eq_some_iff.1 hhead
    have hstart : ({ s with toCells := c }.assign scope x v).2.toCells.Left r us (i + 1) := by
      rw [Store.cells_assign]
      exact hrest
    have hend := hbody _ (.first hnext) us (i + 1) hstart
    rw [after, hok] at hend
    exact .cons hstart hok (ih hend (Nat.lt_of_succ_lt_succ hn) fun t ht => hbody t (.next hnext hok ht))

/-- The renderings of a loop begin where its passes do. -/
theorem Renders.pass (h : Renders scope x r body n s ρs result) {ρ : Rendering} (hρ : ρ ∈ ρs) :
    Pass scope x r body s ρ.start := by
  induction h with
  | exhausted | done | failed => cases hρ
  | stopped hnext _ =>
    obtain rfl := List.mem_singleton.1 hρ
    exact .first hnext
  | further hnext hok _ ih =>
    rcases List.mem_cons.1 hρ with rfl | hρ
    · exact .first hnext
    · exact .next hnext hok (ih hρ)

end Run

/-- A loop that begins has all items of its source left, and none is taken yet. -/
theorem Store.left_beginLoop {scope : Scope} {x : String} {source : Source} {s : Store}
    (h : source.Yields s.toCells s.loops.size vs) :
    (s.beginLoop scope x source).2.2.2.toCells.Left (s.beginLoop scope x source).1 vs (-1) := by
  have hyields : source.Yields (s.assign scope x .null).2.toCells (s.assign scope x .null).2.loops.size vs := by
    rw [cells_assign]
    exact h
  let s₁ : Store := { (s.assign scope x .null).2 with
    loops := (s.assign scope x .null).2.loops.alloc ⟨source, none, -1⟩ }
  show ((s₁.assign scope loopVar _).2).toCells.Left _ vs (-1)
  rw [cells_assign]
  exact Cells.left_newLoop hyields

/-- Whether a loop renders its body for the listed items, in order and each once, until a rendering ends early,
and answers every query of its state in a rendering by the place of the item. -/
structure RendersItems (n : Nat) (scope : Scope) (x : String) (r : LoopRef) (body : List Node) (vs : List Value)
    (start : Store) (ρs : List Rendering) : Prop where
  /-- These are the renderings that take place. -/
  renders : Run.Renders scope x r ((renderNodes scope body).run (Deeper.within n)) n start ρs
    (Run.iterate scope x r ((renderNodes scope body).run (Deeper.within n)) n start)
  /-- The renderings have the first items. -/
  items : ρs.map Rendering.item <+: vs
  /-- All items have a rendering if no rendering ends early. -/
  complete : (∀ ρ ∈ ρs, ∃ t, (renderNodes scope body).run (Deeper.within n) ρ.start = .ok () t) →
    ρs.map Rendering.item = vs
  /-- A rendering that ends early, by a break or a failure, is the last. -/
  stops : ∀ k (hk : k < ρs.length) e t,
    (renderNodes scope body).run (Deeper.within n) ρs[k].start = .error e t → ρs.length = k + 1
  /-- At every moment of a rendering, a query is answered by the index of the rendering and by whether there
  is a next item. -/
  queries : ∀ k (hk : k < ρs.length) before after,
    (renderNodes scope body).events n ρs[k].start = before ++ after → ∀ q : Query,
      q.Answered r (q.answer k (k + 1 < vs.length)) (ρs[k].start.follow before)

/-- A loop over items that neither fail nor change renders its body once for each item, in order, or up to the
rendering that a break ends, whatever the body asks the state of the loop. -/
theorem renderNode_foreach_items {n : Nat} {scope : Scope} (place : Place) (x : String) {collection : Expr}
    {body : List Node} {s₀ s : Store} {v : Value} {source : Source}
    (hcollection : (evalExpr scope collection false).run (Deeper.within n) s₀ = .ok v s)
    (hsource : Run.source? v = some source) (hyields : source.Yields s.toCells s.loops.size vs)
    (hn : vs.length < n)
    (hbody : ∀ t, Run.Pass scope x (s.beginLoop scope x source).1 ((renderNodes scope body).run (Deeper.within n))
        (s.beginLoop scope x source).2.2.2 t →
      Undisturbed (s.beginLoop scope x source).1 t ((renderNodes scope body).events n t)) :
    (renderNode scope (.foreach place x collection body)).run (Deeper.within n) s₀ =
        Run.forEach n scope x source ((renderNodes scope body).run (Deeper.within n)) s ∧
      ∃ ρs, RendersItems n scope x (s.beginLoop scope x source).1 body vs
        (s.beginLoop scope x source).2.2.2 ρs := by
  have hrenders := Run.renders_iterate scope x (s.beginLoop scope x source).1
    ((renderNodes scope body).run (Deeper.within n)) n (s.beginLoop scope x source).2.2.2
  have hgoes := hrenders.goesThrough (Store.left_beginLoop hyields) hn fun t ht vs i hleft => by
    have hend := (hbody t ht).left hleft (List.append_nil _).symm
    rw [Script.follow_events] at hend
    exact hend
  refine ⟨renderNode_foreach_eq hcollection hsource, _, hrenders, hgoes.items, fun hall =>
    (hgoes.complete hall).1, fun k hk e t he => (hgoes.stops k hk e t he).1, fun k hk before after hes q => ?_⟩
  have hpass := hbody _ (hrenders.pass (List.getElem_mem hk))
  have hmoment := (hpass.left (hgoes.left k hk) hes).answered q
  have hindex : (-1 : Int) + 1 + k = k := by omega
  have hmore : (vs.drop (k + 1)).head?.isSome = decide (k + 1 < vs.length) := by
    rw [List.head?_drop]
    by_cases hk : k + 1 < vs.length <;> simp [hk]
  rw [hindex, hmore] at hmoment
  exact hmoment

/-! ### A body that asks a query -/

/-- Whether the loop variable of a scope stands for the state of a loop that has only items left. -/
structure Store.Loops (scope : Scope) (r : LoopRef) (s : Store) : Prop where
  root : scope.root.index < s.roots.size
  left : ∃ vs i, s.toCells.Left r vs i
  state : s.lookup scope loopVar = .stored (some (.loop r))

/-- The body `#set($y = $foreach.q)`. -/
def keepQuery (place : Place) (y : String) (q : Query) : List Node :=
  [.assign y (.reference place loopVar false [.member q.name])]

section

variable {scope : Scope} {place : Place} {x y : String} {q : Query} {n : Nat} {s t : Store}

theorem Store.Loops.assign (h : s.Loops scope r) (hx : loopVar ≠ x) (v : Value) :
    (s.assign scope x v).2.Loops scope r := by
  refine ⟨?_, ?_, ?_⟩
  · rw [Store.assign, Store.size_roots_assignIn]
    exact h.root
  · rw [Store.cells_assign]
    exact h.left
  · rw [Store.lookup_assign_of_ne _ _ _ _ h.root hx]
    exact h.state

theorem Store.Loops.setCells (h : s.Loops scope r) {c : Cells} (hleft : c.Left r vs i) :
    ({ s with toCells := c } : Store).Loops scope r := by
  refine ⟨h.root, ⟨vs, i, hleft⟩, ?_⟩
  rw [← h.state]
  exact lookupIn_congr (fun _ _ => ⟨rfl, rfl⟩) rfl

variable (place q n) in
theorem renderNodes_keepQuery (h : t.Loops scope r) (hy : loopVar ≠ y) :
    Undisturbed r t ((renderNodes scope (keepQuery place y q)).events n t) ∧
      ∃ t', t'.Loops scope r ∧ (renderNodes scope (keepQuery place y q)).run (Deeper.within n) t = .ok () t' := by
  obtain ⟨vs, i, hleft⟩ := h.left
  obtain ⟨c, hleft', hrun, hevents⟩ := hleft.evalExpr_query q h.state place false false
  have hnode : (renderNode scope (.assign y (.reference place loopVar false [.member q.name]))).run
      (Deeper.within n) t =
        .ok () (({ t with toCells := c } : Store).assign scope y (q.answer i vs.head?.isSome)).2 := by
    rw [renderNode, Script.run_bind, Run.bind_ok (hrun _)]
    rfl
  refine ⟨.of_queries ?_, _, (h.setCells hleft').assign hy (q.answer i vs.head?.isSome), ?_⟩
  · rw [keepQuery, renderNodes, Script.events_bind_ok hnode, renderNode, Script.events_bind_ok (hrun _), hevents,
      renderNodes, Script.events_eq, Script.events_eq]
    intro e he hcells
    rcases List.mem_append.1 he with he | he
    · rcases List.mem_append.1 he with he | he
      · rcases List.mem_cons.1 he with rfl | he
        · exact hcells.elim
        · obtain rfl := List.mem_singleton.1 he
          exact .property ..
      · obtain rfl := List.mem_singleton.1 he
        exact hcells.elim
    · cases he
  · rw [keepQuery, renderNodes, Script.run_bind, Run.bind_ok hnode, renderNodes]
    rfl

/-- Such a body leaves the items of its loop alone in every pass. -/
theorem undisturbed_keepQuery (hx : loopVar ≠ x) (hy : loopVar ≠ y) (hs : s.Loops scope r)
    (hpass : Run.Pass scope x r ((renderNodes scope (keepQuery place y q)).run (Deeper.within n)) s t) :
    Undisturbed r t ((renderNodes scope (keepQuery place y q)).events n t) := by
  have hnext {s s₁ : Store} {v : Value} (hs : s.Loops scope r)
      (hv : (Run.loopNext r).toRun s = .ok (some v) s₁) : (s₁.assign scope x v).2.Loops scope r := by
    obtain ⟨vs, i, hleft⟩ := hs.left
    obtain ⟨c, hrun, hleft'⟩ := hleft.loopNext
    rw [Step.toRun_ok hrun] at hv
    obtain ⟨-, rfl⟩ := EStateM.Result.ok.inj hv
    exact (hs.setCells hleft').assign hx v
  induction hpass with
  | first hv => exact (renderNodes_keepQuery place q n (hnext hs hv) hy).1
  | next hv hbody _ ih =>
    obtain ⟨t', ht', hrun⟩ := (renderNodes_keepQuery place q n (hnext hs hv) hy).2
    obtain ⟨-, rfl⟩ := EStateM.Result.ok.inj (hrun.symm.trans hbody)
    exact ih ht'

/-- A loop over a number and null that asks whether there is a next item. -/
theorem renderNode_foreach_items_hasNext :
    let p : Place := ⟨none, 1⟩
    let start := ({} : Store).enterRoot default
    let loop := start.2.beginLoop start.1 "x" (.items [.int 7, .null])
    ∃ ρs, RendersItems 3 start.1 "x" loop.1 (keepQuery p "more" .hasNext) [.int 7, .null] loop.2.2.2 ρs := by
  intro p start loop
  have hloops : loop.2.2.2.Loops start.1 loop.1 :=
    ⟨by decide, ⟨_, _, Store.left_beginLoop .items⟩, rfl⟩
  have hcollection : (evalExpr start.1 (.list p [.literal p (.int 7), .literal p .null]) false).run
      (Deeper.within 3) start.2 = .ok (.tuple [.int 7, .null]) start.2 := rfl
  exact (renderNode_foreach_items p "x" hcollection rfl (.of_value .tuple rfl) (by decide) fun t ht =>
    undisturbed_keepQuery (by decide) (by decide) hloops ht).2

end

end Stencil
