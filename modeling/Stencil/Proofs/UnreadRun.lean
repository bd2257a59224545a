import Stencil.Proofs.Aside
import Stencil.Proofs.Events
import Stencil.Proofs.Unread

/-!
# Arguments that are never read

An argument is evaluated where its parameter is read. If nothing that a call renders mentions the parameter,
then the call does the same whatever the argument is: the same things happen in the same order, and it ends
the same way, in stores that are the same but for the argument: `unread_argument_unobservable`.
-/

namespace Stencil

open Store (SameBut)

/-- A step beside variables and calls ends the same way in stores that are the same but for an argument. -/
theorem Store.SameBut.endsSame {q : Parameter} {s t : Store} {α : Type} {x : Run α} (h : SameBut q s t)
    (hx : x.Aside) : EndsSame (SameBut q) (x s) (x t) := by
  obtain ⟨calls, shadows, rfl⟩ := h.rest
  exact hx.endsSame s h.beside

/-- An act that may come upon its name ends the same way in stores that are the same but for an argument. -/
theorem Act.endsSame {q : Parameter} {s t : Store} {scope : Scope} {α : Type} {a : Act α} (h : SameBut q s t)
    (ha : a.Speaks (q.Allows scope)) (fuel : Nat) :
    EndsSame (SameBut q) (a.run fuel scope s) (a.run fuel scope t) := by
  cases a with
  | step x => exact h.endsSame (.toRun x)
  | fuel => exact .ok h
  | source e => exact .ok h
  | host =>
    show EndsSame _ (.ok (s.root scope.root).host s) (.ok (t.root scope.root).host t)
    rw [h.root_eq]
    exact .ok h
  | find name =>
    show EndsSame _ (.ok (findMacro? (s.root scope.root).macros name) s)
      (.ok (findMacro? (t.root scope.root).macros name) t)
    rw [h.root_eq]
    exact .ok h
  | defined x =>
    show EndsSame _ (.ok (s.isDefined scope x) s) (.ok (t.isDefined scope x) t)
    rw [Store.isDefined_eq, Store.isDefined_eq, (h.lookup ha).1]
    exact .ok h
  | define body origin =>
    refine .bind (h.endsSame (.toRun Run.freshId)) fun id s' t' _ h' => ?_
    exact .ok (h'.addBlock (Parameter.unmentioned_of_allows ha))
  | write text => exact h.endsSame (.write text)
  | load | parse => exact ha.elim

theorem Loading.endsSame {q : Parameter} {s t : Store} (h : SameBut q s t) (l : Loading) (fuel : Nat)
    (scope : Scope) : EndsSame (SameBut q) (l.act.run fuel scope s) (l.act.run fuel scope t) := by
  have hloader : EndsSame (SameBut q) (Run.loaderOf scope s) (Run.loaderOf scope t) := by
    show EndsSame _ (.ok (s.root scope.root).loader s) (.ok (t.root scope.root).loader t)
    rw [h.root_eq]
    exact .ok h
  cases l with
  | byName place name => exact .mapFailure _ (.bind hloader fun r _ _ _ h' => h'.endsSame (.load r name))
  | ofText place text => exact .mapFailure _ (.bind hloader fun r _ _ _ h' => h'.endsSame (.parseText _ _ _))

/-! ### Runs in which the parameter is not mentioned -/

/-- The nodes that an event begins to render: those of a macro or of a template. -/
def Event.rendered : Event → List Node
  | beginCall _ m _ _ => m.body
  | template _ t => t.document.nodes
  | _ => []

/-- An event with other arguments, if it begins a call. -/
def Event.withArgs (args : List Expr) : Event → Event
  | beginCall scope m _ body => beginCall scope m args body
  | e => e

/-- Whether no macro and no template that is rendered mentions a name. -/
def Silent (p : String) (es : List Event) : Prop :=
  ∀ e ∈ es, p ∉ nodesNames e.rendered

variable {q : Parameter} {p : String} {s t : Store} {scope : Scope} {α β : Type} {n : Nat}

theorem silent_append {es es' : List Event} : Silent p (es ++ es') ↔ Silent p es ∧ Silent p es' :=
  List.forall_mem_append

theorem silent_cons {e : Event} {es : List Event} :
    Silent p (e :: es) ↔ p ∉ nodesNames e.rendered ∧ Silent p es :=
  List.forall_mem_cons

/-- The events of a step and of what follows it, unless it stops early. -/
def Run.eventsThen (x : Run β) (first : Store → List Event) (rest : β → Store → List Event) (s : Store) :
    List Event :=
  first s ++ match x s with
  | .ok b s' => rest b s'
  | .error _ _ => []

/-- Whether a step ends the same way in two stores, and the same events happen in it. -/
structure SameRun (q : Parameter) (x : Run α) (events : Store → List Event) (s t : Store) : Prop where
  ends : EndsSame (SameBut q) (x s) (x t)
  events : events t = events s

namespace SameRun

theorem bind {x : Run β} {f : β → Run α} {first : Store → List Event} {rest : β → Store → List Event}
    (hx : Silent q.name (first s) → SameRun q x first s t)
    (hf : ∀ b s' t', SameBut q s' t' → Silent q.name (rest b s') → SameRun q (f b) (rest b) s' t')
    (he : Silent q.name (x.eventsThen first rest s)) :
    SameRun q (x >>= f) (x.eventsThen first rest) s t := by
  obtain ⟨hfirst, hrest⟩ := silent_append.1 he
  obtain ⟨hends, hevents⟩ := hx hfirst
  generalize hs : x s = rs at hends hrest
  generalize ht : x t = rt at hends
  cases hends with
  | ok h =>
    obtain ⟨hends, hrest⟩ := hf _ _ _ h hrest
    refine ⟨?_, ?_⟩
    · rw [Run.bind_ok hs, Run.bind_ok ht]
      exact hends
    · simp only [Run.eventsThen, hs, ht, hevents, hrest]
  | error h =>
    refine ⟨?_, ?_⟩
    · rw [Run.bind_eq_error.2 (.inl hs), Run.bind_eq_error.2 (.inl ht)]
      exact .error h
    · simp only [Run.eventsThen, hs, ht, hevents]

theorem capture {x : Run Unit} {ex : Store → List Event} (h : SameBut q s t)
    (hx : Silent q.name (ex { s with written := "" }) →
      SameRun q x ex { s with written := "" } { t with written := "" })
    (he : Silent q.name (.setText "" :: (ex { s with written := "" } ++ [.setText s.written]))) :
    SameRun q (Run.capture x)
      (fun s => .setText "" :: (ex { s with written := "" } ++ [.setText s.written])) s t := by
  obtain ⟨hends, hevents⟩ := hx (silent_append.1 (silent_cons.1 he).2).1
  exact ⟨.capture SameBut.written_eq SameBut.withWritten h hends, by simp only [hevents, h.written_eq]⟩

end SameRun

open Run (eventsThen passEvents iterate loopNext)

/-- The passes of a loop. -/
theorem sameRun_iterate {x : String} {r : LoopRef} {body : Run Unit} {events : Store → List Event}
    (hbody : ∀ s t, SameBut q s t → Silent q.name (events s) → SameRun q body events s t)
    (h : SameBut q s t) (fuel : Nat) (he : Silent q.name (passEvents scope x r body events fuel s)) :
    SameRun q (iterate scope x r body fuel) (passEvents scope x r body events fuel) s t := by
  induction fuel generalizing s t with
  | zero => exact ⟨.error h, rfl⟩
  | succ fuel ih =>
    -- The events of a pass are those of taking an item, and then those of the body and of the other passes.
    have hevents : passEvents scope x r body events (fuel + 1) =
        (loopNext r).toRun.eventsThen (fun _ => [.loopNext r]) fun v s₁ => v.elim [] fun v =>
          .assign scope x v :: body.eventsThen events (fun _ => passEvents scope x r body events fuel)
            (s₁.assign scope x v).2 := by
      funext s
      cases hs : (loopNext r).toRun s with
      | error e s₁ => simp [passEvents, eventsThen, hs]
      | ok v s₁ =>
        cases v with
        | none => simp [passEvents, eventsThen, hs]
        | some v => cases hb : body (s₁.assign scope x v).2 <;> simp [passEvents, eventsThen, hs, hb]
    rw [hevents] at he ⊢
    refine SameRun.bind (fun _ => ⟨h.endsSame (.toRun (loopNext r)), rfl⟩) (fun v s₁ t₁ h₁ he => ?_) he
    cases v with
    | none => exact ⟨.ok h₁, rfl⟩
    | some v =>
      have h₂ := ((SameBut.simulation q).assign h₁ scope x v).2
      obtain ⟨hends, hevents⟩ := SameRun.bind (f := fun _ => iterate scope x r body fuel)
        (hbody _ _ h₂) (fun _ s₃ t₃ h₃ => ih h₃) (silent_cons.1 he).2
      exact ⟨hends, congrArg (Event.assign scope x v :: ·) hevents⟩

namespace Script

theorem eventsIn_andThen (d : Deeper)
    (deeper : {scope : Scope} → {α : Type} → Script scope α → Store → List Event) (y : Script scope β)
    (f : β → Script scope α) :
    (y.andThen f).eventsIn d deeper = (y.run d).eventsThen (y.eventsIn d deeper) fun b =>
      (f b).eventsIn d deeper := by
  funext s
  cases h : y.run d s <;> simp only [eventsIn, eventsThen, h]

/-- Carries a script out one level deeper, if a level is left. -/
def runInside : Nat → Script scope α → Run α
  | 0, _ => Run.exhausted
  | n + 1, y => y.run (Deeper.within n)

theorem thunk_within (n : Nat) (e : Thunk) :
    (Deeper.within n).thunk e = runInside n (evalExpr e.scope e.expr false) := by
  cases n <;> rfl

theorem render_within (n : Nat) (scope : Scope) (nodes : List Node) :
    (Deeper.within n).render scope nodes = runInside n (renderNodes scope nodes) := by
  cases n <;> rfl

theorem text_within (n : Nat) (v : Value) :
    (Deeper.within n).text v = runInside n (textOf v : Script default String) := by
  cases n <;> rfl

/-- Whether scripts that cannot come upon an argument run the same with so many levels of fuel. -/
def SameWithin (q : Parameter) (n : Nat) : Prop :=
  ∀ ⦃scope : Scope⦄ ⦃α : Type⦄ ⦃y : Script scope α⦄ ⦃s t : Store⦄, y.Speaks (q.Allows scope) →
    SameBut q s t → Silent q.name (y.events n s) → SameRun q (y.run (Deeper.within n)) (y.events n) s t

section

variable (ih : ∀ k, n = k + 1 → SameWithin q k) {y : Script scope α}
include ih

/-- What is evaluated one level deeper. -/
theorem sameRun_inside (hy : y.Speaks (q.Allows scope)) (h : SameBut q s t)
    (he : Silent q.name (inside n y s)) : SameRun q (runInside n y) (inside n y) s t := by
  cases n with
  | zero => exact ⟨.error h, rfl⟩
  | succ k => exact ih k rfl hy h he

theorem sameRun_render {nodes : List Node} (hq : q.Unmentioned scope (nodesNames nodes))
    (h : SameBut q s t) (he : Silent q.name (inside n (renderNodes scope nodes) s)) :
    SameRun q ((Deeper.within n).render scope nodes) (inside n (renderNodes scope nodes)) s t := by
  rw [render_within]
  exact sameRun_inside ih (speaks_renderNodes nodes hq.allows) h he

theorem sameRun_template (e : Template) (h : SameBut q s t)
    (he : Silent q.name ((template e : Script scope Unit).events n s)) :
    SameRun q ((template e : Script scope Unit).run (Deeper.within n))
      ((template e : Script scope Unit).events n) s t := by
  rw [funext (events_eq n _)] at he ⊢
  obtain ⟨hnames, hrest⟩ := silent_cons.1 he
  obtain ⟨hends, hevents⟩ := sameRun_render ih (fun _ => hnames) (h.addMacros scope.root e.macros) hrest
  exact ⟨.catchLeave _ hends, congrArg (Event.template scope e :: ·) hevents⟩

/-- Calls of a macro that begin the same but for an argument end so, and the same happens in them. -/
theorem sameRun_call {m : MacroDef} {args args' : List Expr} {body : Option (List Node)}
    (hc : (s.beginCall scope m args body).1 = (t.beginCall scope m args' body).1)
    (h : SameBut q (s.beginCall scope m args body).2 (t.beginCall scope m args' body).2)
    (he : Silent q.name ((call m args body : Script scope Unit).events n s)) :
    EndsSame (SameBut q) ((call m args body : Script scope Unit).run (Deeper.within n) s)
        ((call m args' body : Script scope Unit).run (Deeper.within n) t) ∧
      (call m args' body : Script scope Unit).events n t =
        ((call m args body : Script scope Unit).events n s).modify 0 (Event.withArgs args') := by
  rw [events_eq] at he
  obtain ⟨hnames, hrest⟩ := silent_cons.1 he
  obtain ⟨hends, hevents⟩ := sameRun_render ih (fun _ => hnames) h (silent_append.1 hrest).1
  refine ⟨?_, ?_⟩
  · show EndsSame _ (Run.renderMacro _ scope m args body s) (Run.renderMacro _ scope m args' body t)
    rw [Run.renderMacro_eq, Run.renderMacro_eq, ← hc]
    exact .andThen (.mapFailure _ hends) fun s' t' _ h' => (SameBut.simulation q).restoreParams h' _
  · rw [events_eq, events_eq]
    simp only [eventsIn]
    rw [← hc]
    exact congrArg (fun es => Event.beginCall scope m args' body ::
      (es ++ [.endCall (s.beginCall scope m args body).1])) hevents

/-- From stores that are the same but for an argument, a script that cannot come upon it runs the same, if
scripts one level deeper do. -/
theorem Speaks.sameRun_step (hy : y.Speaks (q.Allows scope)) (h : SameBut q s t)
    (he : Silent q.name (y.events n s)) : SameRun q (y.run (Deeper.within n)) (y.events n) s t := by
  rw [funext (events_eq n y)] at he ⊢
  induction hy generalizing s t with
  | done => exact ⟨.ok h, rfl⟩
  | andThen _ _ ihx ihf =>
    rw [eventsIn_andThen] at he ⊢
    exact .bind (ihx h) (fun b _ _ h' => ihf b h') he
  | act ha => exact ⟨Act.endsSame h ha _, rfl⟩
  | directive l =>
    rw [eventsIn_andThen] at he ⊢
    refine .bind (fun _ => ⟨l.endsSame h _ _, rfl⟩) (fun e _ _ h' he => ?_) he
    rw [← funext (events_eq n _)] at he ⊢
    exact sameRun_template ih e h' he
  | leave => exact ⟨.error h, rfl⟩
  | @read x hx =>
    obtain ⟨hlookup, hargument⟩ := h.lookup hx
    have hread : ∀ s, (Script.read x : Script scope Value).run (Deeper.within n) s =
        (s.lookup scope x).value (Deeper.within n) s := fun s => Run.read_eq ..
    cases hs : s.lookup scope x with
    | block | stored =>
      refine ⟨?_, by simp only [eventsIn, ← hlookup, hs]⟩
      rw [hread, hread, ← hlookup, hs]
      exact .ok h
    | argument c e =>
      simp only [eventsIn, hs] at he
      obtain ⟨hends, hevents⟩ :=
        sameRun_inside ih (speaks_evalExpr e.expr false (hargument c e hs).allows) h he
      refine ⟨?_, by simpa only [eventsIn, ← hlookup, hs] using hevents⟩
      rw [hread, hread, ← hlookup, hs, Binding.value, thunk_within]
      exact hends
  | assign => exact ⟨.ok ((SameBut.simulation q).assign h _ _ _).2, rfl⟩
  | capture _ ihx => exact .capture h (ihx (h.withWritten "")) he
  | rethrow _ ihx =>
    obtain ⟨hends, hevents⟩ := ihx h he
    exact ⟨hends.mapFailure _, hevents⟩
  | @loop x source body _ _ ihb =>
    obtain ⟨hstate, hvar, hloop, hbegin⟩ := (SameBut.simulation q).beginLoop h scope x source
    have hpasses := (silent_append.1 (silent_cons.1 (silent_cons.1 (silent_cons.1 he).2).2).2).1
    have hpass : ∀ s t, SameBut q s t → Silent q.name (body.eventsIn (Deeper.within n) (inside n) s) →
        SameRun q (body.run (Deeper.within n)) (body.eventsIn (Deeper.within n) (inside n)) s t :=
      fun _ _ h' => ihb h'
    obtain ⟨hends, hevents⟩ := sameRun_iterate hpass hbegin (Deeper.within n).fuel hpasses
    refine ⟨?_, ?_⟩
    · show EndsSame _ (Run.forEach (Deeper.within n).fuel scope x source (body.run (Deeper.within n)) s)
        (Run.forEach (Deeper.within n).fuel scope x source (body.run (Deeper.within n)) t)
      rw [Run.forEach_eq, Run.forEach_eq, ← hstate, ← hvar, ← hloop]
      have hundo := fun {s t : Store} (h : SameBut q s t) => (SameBut.simulation q).undo h
      exact .andThen (.catchLeave _ hends) fun s' t' _ h' => hundo (hundo h' _) _
    · simp only [eventsIn]
      rw [← hstate, ← hvar, ← hloop, hevents]
  | @call m args body ha hb =>
    obtain ⟨hc, hbegin⟩ := h.beginCall (Store.sameArgument_callParams ha _)
      fun nodes hnodes => Parameter.unmentioned_of_allows (hb nodes hnodes)
    rw [← funext (events_eq n _)] at he ⊢
    obtain ⟨hends, hevents⟩ := sameRun_call ih hc hbegin he
    refine ⟨hends, hevents.trans ?_⟩
    rw [events_eq]
    rfl
  | @block b =>
    obtain ⟨hends, hevents⟩ := SameRun.capture h (sameRun_render ih (h.blocks b) (h.withWritten "")) he
    refine ⟨?_, ?_⟩
    · show EndsSame _ ((Deeper.within n).blockText (s.block b) s) ((Deeper.within n).blockText (t.block b) t)
      rw [← h.block_eq]
      exact hends
    · simp only [eventsIn]
      rw [← h.block_eq]
      exact hevents
  | @text v =>
    have hrun : (Script.text v : Script scope String).run (Deeper.within n) = runInside n (textOf v) :=
      text_within n v
    rw [hrun]
    exact sameRun_inside ih (ofHost_textOf v).speaks h he

end

/-- From stores that are the same but for an argument, a script that cannot come upon it runs the same, if
nothing that is rendered meanwhile mentions the parameter. -/
theorem sameWithin (q : Parameter) (n : Nat) : SameWithin q n := by
  induction n with
  | zero => exact fun _ _ _ _ _ hy => hy.sameRun_step fun k hk => absurd hk (Nat.zero_ne_add_one k)
  | succ n ih =>
    refine fun _ _ _ _ _ hy => hy.sameRun_step fun k hk => ?_
    cases hk
    exact ih

end Script

/-! ### Calls that differ in one argument -/

/-- The node that calls a macro, with a block and the line where that begins, or without one. -/
def Node.calling (place : Place) (name : String) (args : List Expr) : Option (Nat × List Node) → Node
  | none => .call place name args
  | some (line, body) => .callWith place name args line body

theorem renderNode_calling (scope : Scope) (place : Place) (name : String) (args : List Expr)
    (block : Option (Nat × List Node)) :
    renderNode scope (.calling place name args block) = callMacro place name args (block.map (·.2)) := by
  cases block with
  | none => rw [Node.calling, renderNode]; rfl
  | some b => rw [Node.calling, renderNode]; rfl

/-- A macro that is known by its name is called, unless the number of arguments is wrong. -/
theorem callMacro_of_known {scope : Scope} {s : Store} {name : String} {m : MacroDef}
    (hm : findMacro? (s.macros scope.root) name = some m) (n : Nat) (place : Place) (args : List Expr)
    (body : Option (List Node)) :
    let call : Script scope Unit := if args.length = m.params.length then .call m args body
      else Script.failAt place (.arity name m.params.length args.length)
    (callMacro place name args body : Script scope Unit).run (Deeper.within n) s =
        call.run (Deeper.within n) s ∧
      (callMacro place name args body : Script scope Unit).events n s =
        .act n scope (.find name) :: call.events n s := by
  intro call
  have hfind : (Script.act (.find name) : Script scope _).run (Deeper.within n) s = .ok (some m) s := by
    show EStateM.Result.ok (findMacro? (s.macros scope.root) name) s = _
    rw [hm]
  refine ⟨Run.bind_ok hfind, ?_⟩
  rw [Script.events_eq, Script.events_eq]
  show (Script.andThen (.act (.find name)) _).eventsIn _ _ s = _
  rw [Script.eventsIn_andThen, eventsThen, hfind]
  rfl

/-- A call does the same whatever the argument of a parameter is, if nothing that is rendered in the call
mentions the parameter: not the body of the macro, nor that of another one, nor a template. It ends the same
way, in stores that are the same but for that argument, and the same happens in it in the same order. -/
theorem unread_argument_unobservable (n : Nat) (s : Store) (scope : Scope) (place : Place) (name : String)
    (m : MacroDef) (p : String) (args args' : List Expr) (block : Option (Nat × List Node)) (hs : s.Sound)
    (hv : scope.Valid s) (hm : findMacro? (s.macros scope.root) name = some m)
    (hl : args'.length = args.length) (ha : ∀ i : Nat, m.params[i]? ≠ some p → args'[i]? = args[i]?) :
    let call := renderNode scope (.calling place name args block)
    let call' := renderNode scope (.calling place name args' block)
    Silent p (call.events n s) →
      EndsSame (SameBut ⟨⟨s.calls.size⟩, p⟩) (call.run (Deeper.within n) s) (call'.run (Deeper.within n) s) ∧
        call'.events n s = (call.events n s).modify 1 (Event.withArgs args') := by
  intro call call' he
  have hq : (⟨s.calls.size⟩ : CallRef) ∉ scope.calls := fun hc => Nat.lt_irrefl _ (hv.calls _ hc)
  obtain ⟨hrun, hevents⟩ := callMacro_of_known hm n place args (block.map (·.2))
  obtain ⟨hrun', hevents'⟩ := callMacro_of_known hm n place args' (block.map (·.2))
  simp only [call, call', renderNode_calling] at he ⊢
  rw [hl] at hrun' hevents'
  rw [hevents] at he
  rw [hrun, hrun', hevents, hevents', List.modify_succ_cons]
  by_cases hlen : args.length = m.params.length
  · simp only [if_pos hlen] at he ⊢
    obtain ⟨hends, hcall⟩ := Script.sameRun_call (fun k _ => Script.sameWithin _ k)
      (by rw [Store.beginCall_fst, Store.beginCall_fst]) (SameBut.beginCall_of_ne hs hv hl ha _)
      (silent_cons.1 he).2
    exact ⟨hends, congrArg _ hcall⟩
  · simp only [if_neg hlen] at he ⊢
    refine ⟨(Script.sameWithin _ n (.failAt place _) (hs.sameBut hv p) (silent_cons.1 he).2).ends, ?_⟩
    rw [Script.events_eq]
    rfl

/-- An argument that would fail is passed for a parameter that the macro does not mention. -/
theorem unread_argument_unobservable_if_failing :
    let place : Place := ⟨none, 1⟩
    let m : MacroDef := ⟨place, "m", ["p", "q"], [.output (.reference place "q" false [])]⟩
    let start := ({} : Store).enterRoot ⟨[], [m], .standard, ⟨0⟩⟩
    let seven : Expr := .literal place (.int 7)
    let failing : Expr := .reference place "missing" false []
    let call := renderNode start.1 (.calling place "m" [failing, seven] none)
    let call' := renderNode start.1 (.calling place "m" [seven, seven] none)
    start.2.Sound ∧ start.1.Valid start.2 ∧ findMacro? (start.2.macros start.1.root) "m" = some m ∧
      (∀ i : Nat, m.params[i]? ≠ some "p" → [seven, seven][i]? = [failing, seven][i]?) ∧
      Silent "p" (call.events 2 start.2) ∧ ((call.run (Deeper.within 2)).after start.2).written = "7" ∧
      EndsSame (SameBut ⟨⟨0⟩, "p"⟩) (call.run (Deeper.within 2) start.2) (call'.run (Deeper.within 2) start.2) ∧
      call'.events 2 start.2 = (call.events 2 start.2).modify 1 (Event.withArgs [seven, seven]) := by
  intro place m start seven failing call call'
  obtain ⟨hs, hv⟩ := Store.sound_empty.enterRoot ⟨[], [m], .standard, ⟨0⟩⟩
  have ha : ∀ i : Nat, m.params[i]? ≠ some "p" → [seven, seven][i]? = [failing, seven][i]? := by
    rintro (_ | _ | i) hi
    · exact absurd rfl hi
    · rfl
    · rfl
  have hsilent : Silent "p" (call.events 2 start.2) := by
    show ∀ e ∈ call.events 2 start.2, "p" ∉ nodesNames e.rendered
    decide +kernel
  obtain ⟨hends, hevents⟩ := unread_argument_unobservable 2 start.2 start.1 place "m" m "p" [failing, seven] [seven, seven]
    none hs hv rfl rfl ha hsilent
  exact ⟨hs, hv, rfl, ha, hsilent, by decide +kernel, hends, hevents⟩

end Stencil
