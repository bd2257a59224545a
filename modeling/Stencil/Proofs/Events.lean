import Stencil.Proofs.After

/-!
# What happens in a run

Carrying out a script changes the store in steps: the host and the loaders are used, names are assigned and
assignments taken back, loops and calls begin and end, the macros of templates become known. Here these steps
are data. `Script.events` lists them in order, and following them leads to the store that the run leaves,
however it ends: `Script.follow_events`. What every event keeps holds at every moment of every run.
-/

namespace Stencil

/-- One thing that happens to a store: in an evaluation, to a loader that is used directly, or outside, where
the host works on its cells and texts and files change. -/
inductive Event : Type 1 where
  | act (fuel : Nat) (scope : Scope) {α : Type} (a : Act α)
  | assign (scope : Scope) (x : String) (v : Value)
  | undo (u : Undo)
  | newLoop (source : Source)
  | loopNext (r : LoopRef)
  | beginCall (scope : Scope) (m : MacroDef) (args : List Expr) (body : Option (List Node))
  | endCall (c : CallRef)
  | template (scope : Scope) (t : Template)
  | setText (text : String)
  | beginRoot (f : RootFrame)
  | load (r : LoaderRef) (name : String)
  | parseResource (r : LoaderRef) (name : String)
  | parseText (r : LoaderRef) (resource : Option String) (text : String)
  | outside (cells : Cells) (texts : Bindings String) (files : FileTree)

/-- The store after an event. -/
def Event.effect : Event → Store → Store
  | act fuel scope a, s => (a.run fuel scope).after s
  | assign scope x v, s => (s.assign scope x v).2
  | undo u, s => s.undo u
  | newLoop source, s => (Run.newLoop source).toRun.after s
  | loopNext r, s => (Run.loopNext r).toRun.after s
  | beginCall scope m args body, s => (s.beginCall scope m args body).2
  | endCall c, s => s.restoreParams c
  | template scope t, s => s.addMacros scope.root t.macros
  | setText text, s => { s with written := text }
  | beginRoot f, s => (s.enterRoot f).2
  | load r name, s => (Run.load r name).after s
  | parseResource r name, s => (Run.parseResource r name).after s
  | parseText r resource text, s => (Run.parseText r resource text).after s
  | outside cells texts files, s => { s with toCells := cells, texts := texts, files := files }

namespace Store

/-- The store after some events, one after another. -/
def follow (s : Store) (es : List Event) : Store :=
  es.foldl (fun s (e : Event) => e.effect s) s

@[simp] theorem follow_nil (s : Store) : s.follow [] = s := rfl

@[simp] theorem follow_cons (s : Store) (e : Event) (es : List Event) :
    s.follow (e :: es) = Store.follow (e.effect s) es := rfl

@[simp] theorem follow_append (s : Store) (es es' : List Event) :
    s.follow (es ++ es') = (s.follow es).follow es' :=
  List.foldl_append

/-- What every event keeps is kept by events one after another. -/
theorem follow_induction {P : Store → Prop} (hstep : ∀ (e : Event) (s : Store), P s → P (e.effect s))
    {s : Store} (hs : P s) (es : List Event) : P (s.follow es) := by
  induction es generalizing s with
  | nil => exact hs
  | cons e es ih => exact ih (hstep e s hs)

end Store

/-- The events of the passes of a loop, of which there are at most so many, given those of its body. -/
def Run.passEvents (scope : Scope) (x : String) (r : LoopRef) (body : Run Unit)
    (events : Store → List Event) : Nat → Store → List Event
  | 0, _ => []
  | n + 1, s => .loopNext r ::
    match (loopNext r).toRun s with
    | .ok (some v) s₁ => .assign scope x v :: (events (s₁.assign scope x v).2 ++
      match body (s₁.assign scope x v).2 with
      | .ok _ s₂ => passEvents scope x r body events n s₂
      | .error _ _ => [])
    | _ => []

namespace Script

variable {scope : Scope}

/-- The events of a script that is carried out from a store, given those one level deeper. -/
def eventsIn (d : Deeper)
    (deeper : {scope : Scope} → {α : Type} → Script scope α → Store → List Event) :
    {α : Type} → Script scope α → Store → List Event
  | _, done _, _ => []
  | _, andThen y f, s => y.eventsIn d deeper s ++
    match y.run d s with
    | .ok b s' => (f b).eventsIn d deeper s'
    | .error _ _ => []
  | _, act a, _ => [.act d.fuel scope a]
  | _, leave _ _, _ => []
  | _, read x, s =>
    match s.lookup scope x with
    | .argument _ t => deeper (evalExpr t.scope t.expr false) s
    | _ => []
  | _, assign x v, _ => [.assign scope x v]
  | _, capture y, s =>
    .setText "" :: (y.eventsIn d deeper { s with written := "" } ++ [.setText s.written])
  | _, rethrow _ y, s => y.eventsIn d deeper s
  | _, loop x source body, s =>
    let start := s.beginLoop scope x source
    .assign scope x .null :: .newLoop source :: .assign scope loopVar (.loop start.1) ::
      (Run.passEvents scope x start.1 (body.run d) (body.eventsIn d deeper) d.fuel start.2.2.2 ++
        [.undo start.2.2.1, .undo start.2.1])
  | _, call m args body, s =>
    let start := s.beginCall scope m args body
    .beginCall scope m args body ::
      (deeper (renderNodes (scope.enter start.1) m.body) start.2 ++ [.endCall start.1])
  | _, template t, s =>
    .template scope t :: deeper (renderNodes scope t.document.nodes) (s.addMacros scope.root t.macros)
  | _, block b, s =>
    .setText "" :: (deeper (renderNodes (s.block b).scope (s.block b).body) { s with written := "" } ++
      [.setText s.written])
  | _, text v, s => deeper (textOf v : Script default String) s

/-- The events of a script that is carried out from a store with so many levels of fuel. -/
def events : Nat → {scope : Scope} → {α : Type} → Script scope α → Store → List Event
  | 0, _, _, y, s => y.eventsIn (Deeper.within 0) (fun _ _ => []) s
  | n + 1, _, _, y, s => y.eventsIn (Deeper.within (n + 1)) (events n) s

/-- The events one level deeper; none where no level is left. -/
def inside : Nat → {scope : Scope} → {α : Type} → Script scope α → Store → List Event
  | 0, _, _, _, _ => []
  | n + 1, _, _, y, s => y.events n s

theorem events_eq (n : Nat) {α : Type} (y : Script scope α) (s : Store) :
    y.events n s = y.eventsIn (Deeper.within n) (inside n) s := by
  cases n <;> rfl

/-! ### The events of each kind of script -/

section

variable {α β : Type} {n : Nat} {s s' : Store}

theorem events_done (a : α) : (done a : Script scope α).events n s = [] := by
  rw [events_eq]
  rfl

theorem events_andThen (y : Script scope β) (f : β → Script scope α) :
    (andThen y f).events n s = y.events n s ++
      match y.run (Deeper.within n) s with
      | .ok b s' => (f b).events n s'
      | .error _ _ => [] := by
  simp only [events_eq, eventsIn]

theorem events_bind_ok {y : Script scope β} {f : β → Script scope α} {b : β}
    (h : y.run (Deeper.within n) s = .ok b s') :
    (y >>= f).events n s = y.events n s ++ (f b).events n s' := by
  show (andThen y f).events n s = _
  rw [events_andThen, h]

theorem events_act (a : Act α) : (act a : Script scope α).events n s = [.act n scope a] := by
  rw [events_eq]
  rfl

theorem events_read (x : String) (s : Store) :
    (read x : Script scope Value).events n s = match s.lookup scope x with
      | .argument _ t => inside n (evalExpr t.scope t.expr false) s
      | _ => [] := by
  rw [events_eq]
  rfl

theorem events_assign (x : String) (v : Value) :
    (assign x v : Script scope Unit).events n s = [.assign scope x v] := by
  rw [events_eq]
  rfl

theorem events_capture (y : Script scope Unit) :
    (capture y).events n s =
      [.setText ""] ++ (y.events n { s with written := "" } ++ [.setText s.written]) := by
  simp only [events_eq]
  rfl

theorem events_rethrow (f : Failure → Failure) (y : Script scope α) :
    (rethrow f y).events n s = y.events n s := by
  simp only [events_eq]
  rfl

theorem events_loop (x : String) (source : Source) (body : Script scope Unit) (s : Store) :
    (loop x source body).events n s =
      [.assign scope x .null, .newLoop source, .assign scope loopVar (.loop (s.beginLoop scope x source).1)] ++
        (Run.passEvents scope x (s.beginLoop scope x source).1 (body.run (Deeper.within n)) (body.events n) n
            (s.beginLoop scope x source).2.2.2 ++
          [.undo (s.beginLoop scope x source).2.2.1, .undo (s.beginLoop scope x source).2.1]) := by
  rw [funext (events_eq n body), events_eq]
  rfl

theorem events_call (m : MacroDef) (args : List Expr) (body : Option (List Node)) (s : Store) :
    (call m args body : Script scope Unit).events n s =
      [.beginCall scope m args body] ++
        (inside n (renderNodes (scope.enter (s.beginCall scope m args body).1) m.body)
            (s.beginCall scope m args body).2 ++ [.endCall (s.beginCall scope m args body).1]) := by
  rw [events_eq]
  rfl

theorem events_template (t : Template) (s : Store) :
    (template t : Script scope Unit).events n s =
      [.template scope t] ++
        inside n (renderNodes scope t.document.nodes) (s.addMacros scope.root t.macros) := by
  rw [events_eq]
  rfl

theorem events_block (b : BlockRef) (s : Store) :
    (block b : Script scope String).events n s =
      [.setText ""] ++ (inside n (renderNodes (s.block b).scope (s.block b).body) { s with written := "" } ++
        [.setText s.written]) := by
  rw [events_eq]
  rfl

theorem events_text (v : Value) :
    (text v : Script scope String).events n s = inside n (textOf v : Script default String) s := by
  rw [events_eq]
  rfl

end

end Script

/-- The events of an evaluation of a template. -/
def Template.eventsWithin (n : Nat) (t : Template) (vars : Bindings Value) (host : HostKind) (s : Store) :
    List Event :=
  let start := s.enterRoot ⟨vars, t.macros, host, t.loader⟩
  .beginRoot ⟨vars, t.macros, host, t.loader⟩ :: .setText "" ::
    (Script.inside n (renderNodes start.1 t.document.nodes) { start.2 with written := "" } ++
      [.setText start.2.written])

/-! ### Following the events of a run -/

namespace Run

variable {scope : Scope} {x : String} {r : LoopRef} {body : Run Unit}

theorem follow_passEvents {events : Store → List Event} (hbody : ∀ s, s.follow (events s) = body.after s)
    (n : Nat) (s : Store) :
    s.follow (passEvents scope x r body events n s) = (iterate scope x r body n).after s := by
  induction n generalizing s with
  | zero => rfl
  | succ n ih =>
    have hiterate : iterate scope x r body (n + 1) =
        ((loopNext r).toRun >>= fun v => v.elim (pure ()) fun v =>
          assign scope x v >>= fun _ => body >>= fun _ => iterate scope x r body n : Run Unit) := by
      rw [iterate]
      refine congrArg _ (funext fun v => ?_)
      cases v <;> rfl
    rw [passEvents, hiterate, after_bind, Store.follow_cons, Event.effect, after]
    cases (loopNext r).toRun s with
    | error h s₁ => rfl
    | ok v s₁ =>
      cases v with
      | none => rfl
      | some v =>
        show _ = (body >>= fun _ => iterate scope x r body n).after (s₁.assign scope x v).2
        simp only [Store.follow_cons, Event.effect, Store.follow_append, hbody]
        rw [after_bind, after]
        cases body (s₁.assign scope x v).2 with
        | error h s₂ => rfl
        | ok _ s₂ => exact ih s₂

end Run

namespace Script

variable {scope : Scope} {α : Type} {n : Nat}

/-- Following the events of a script leads to the store after it, if that is so one level deeper. -/
theorem follow_events_step
    (ih : ∀ k, n = k + 1 → ∀ {scope : Scope} {α : Type} (y : Script scope α) (s : Store),
      s.follow (y.events k s) = (y.run (Deeper.within k)).after s)
    (y : Script scope α) (s : Store) :
    s.follow (y.events n s) = (y.run (Deeper.within n)).after s := by
  have hrender : ∀ (scope : Scope) (nodes : List Node) (s : Store),
      s.follow (inside n (renderNodes scope nodes) s) = ((Deeper.within n).render scope nodes).after s := by
    intro scope nodes s
    cases n with
    | zero => rfl
    | succ k => exact ih k rfl _ s
  rw [events_eq]
  induction y generalizing s with
  | done a => rfl
  | andThen y f ihy ihf =>
    rw [eventsIn, Store.follow_append, ihy, run, Run.after_bind, Run.after]
    cases y.run (Deeper.within n) s with
    | ok b s' => exact ihf b s'
    | error h s' => rfl
  | act a => rfl
  | leave place loopOnly => rfl
  | read x =>
    show _ = (Run.read (Deeper.within n) scope x).after s
    rw [eventsIn, Run.after, Run.read_eq, ← Run.after]
    cases s.lookup scope x with
    | block b => rfl
    | stored v => rfl
    | argument c t =>
      cases n with
      | zero => rfl
      | succ k => exact ih k rfl _ s
  | assign x v => rfl
  | capture y ihy =>
    rw [eventsIn, run, Run.after_capture, Store.follow_cons, Store.follow_append, Event.effect, ihy]
    rfl
  | rethrow f y ihy =>
    rw [eventsIn, run, Run.after_mapFailure]
    exact ihy s
  | loop x source body ihb =>
    rw [eventsIn, run, Run.after_forEach, ← Run.follow_passEvents ihb]
    simp only [Store.follow_cons, Store.follow_append, Store.follow_nil, Event.effect]
    rfl
  | call m args body =>
    rw [eventsIn, run, Run.after_renderMacro, ← hrender]
    simp only [Store.follow_cons, Store.follow_append, Store.follow_nil, Event.effect]
  | template t =>
    rw [eventsIn, run, Run.after_renderTemplate, ← hrender]
    rfl
  | block b =>
    show _ = (Run.capture ((Deeper.within n).render (s.block b).scope (s.block b).body)).after s
    rw [eventsIn, Run.after_capture, Store.follow_cons, Store.follow_append, Event.effect, hrender]
    rfl
  | text v =>
    cases n with
    | zero => rfl
    | succ k => exact ih k rfl _ s

/-- Following the events of a script leads to the store after it, however it ends. -/
theorem follow_events (n : Nat) (y : Script scope α) (s : Store) :
    s.follow (y.events n s) = (y.run (Deeper.within n)).after s := by
  induction n generalizing scope α s with
  | zero => exact follow_events_step (fun k h => absurd h (Nat.zero_ne_add_one k)) y s
  | succ n ih =>
    refine follow_events_step (fun k h => ?_) y s
    cases h
    exact fun y s => ih y s

/-- Following the events of what is rendered one level deeper. -/
theorem follow_inside (n : Nat) (scope : Scope) (nodes : List Node) (s : Store) :
    s.follow (inside n (renderNodes scope nodes) s) = ((Deeper.within n).render scope nodes).after s := by
  cases n with
  | zero => rfl
  | succ k => exact follow_events k _ s

end Script

/-- What ends the breaks of an evaluation leaves its store alone. -/
theorem Run.after_endBreaks (x : Run Unit) (s : Store) : (endBreaks x).after s = x.after s := by
  rw [after, endBreaks, after]
  rcases x s with ⟨a, s'⟩ | ⟨h, s'⟩
  · rfl
  · cases h with
    | leave place loopOnly => cases loopOnly <;> rfl
    | failure f => rfl
    | exhausted => rfl

/-- Following the events of an evaluation leads to the store after it, however it ends. -/
theorem Template.follow_eventsWithin (n : Nat) (t : Template) (vars : Bindings Value) (host : HostKind)
    (s : Store) : s.follow (t.eventsWithin n vars host s) = (t.evaluateWithin n vars host).after s := by
  show _ = (Run.capture (Run.endBreaks ((Deeper.within n).render _ t.document.nodes))).after _
  rw [Run.after_capture, Run.after_endBreaks, eventsWithin]
  simp only [Store.follow_cons, Store.follow_append, Script.follow_inside, Event.effect]
  rfl

end Stencil
