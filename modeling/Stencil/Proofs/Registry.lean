import Stencil.Proofs.EventFrame
import Stencil.Proofs.Mention
import Stencil.Proofs.Twins

/-!
# The macros that an evaluation knows

An evaluation knows the macros of its template, and then those of the templates that its directives load, in
the order in which they are loaded; of two macros of one name it knows the first. What a name is bound to is
never changed: `Template.macros_over_runs`.
-/

namespace Stencil

/-! ### Loaded templates are rendered at once -/

/-- The template that an act loads, if it loads one. -/
def Act.loaded (scope : Scope) (s : Store) : {α : Type} → Act α → Option Template
  | _, load place name => Run.given (Run.loadAt scope place name s)
  | _, parse place text => Run.given (Run.parseAt scope place text s)
  | _, _ => none

theorem Loading.loaded_act (l : Loading) (fuel : Nat) (scope : Scope) (s : Store) :
    l.act.loaded scope s = Run.given (l.act.run fuel scope s) := by
  cases l <;> rfl

/-- The templates that an event loads for an evaluation. -/
def Event.loaded (r : RootRef) (s : Store) : Event → List Template
  | act _ scope a => if scope.root = r then (a.loaded scope s).toList else []
  | _ => []

/-- The templates that are loaded for an evaluation in some events, in order. -/
def Store.loaded (r : RootRef) : List Event → Store → List Template
  | [], _ => []
  | e :: es, s => e.loaded r s ++ Store.loaded r es (e.effect s)

/-- The templates whose macros are about to be made known to an evaluation, where these events follow. -/
def Event.pending (r : RootRef) : List Event → List Template
  | [] => []
  | e :: _ => e.grafts r

/-- Whether an event neither loads a template nor makes macros known. -/
def Event.IsPlain : Event → Prop
  | act _ scope a => ∀ s, a.loaded scope s = none
  | template .. => False
  | _ => True

/-- Events in which the macros of each template are made known as soon as it was loaded. -/
inductive Orderly : Store → List Event → Prop
  | nil {s : Store} : Orderly s []
  | plain {s : Store} {e : Event} {es : List Event} (he : e.IsPlain) (rest : Orderly (e.effect s) es) :
      Orderly s (e :: es)
  | refused {s : Store} {fuel : Nat} {scope : Scope} {l : Loading} {es : List Event}
      (h : l.act.loaded scope s = none) (rest : Orderly ((l.act.run fuel scope).after s) es) :
      Orderly s (.act fuel scope l.act :: es)
  | rendered {s : Store} {fuel : Nat} {scope : Scope} {l : Loading} {t : Template} {es : List Event}
      (h : l.act.loaded scope s = some t)
      (rest : Orderly (((l.act.run fuel scope).after s).addMacros scope.root t.macros) es) :
      Orderly s (.act fuel scope l.act :: .template scope t :: es)

namespace Orderly

variable {s : Store} {r : RootRef} {es es' : List Event}

theorem append (h : Orderly s es) (h' : Orderly (s.follow es) es') : Orderly s (es ++ es') := by
  induction h with
  | nil => exact h'
  | plain he _ ih => exact .plain he (ih h')
  | refused hr _ ih => exact .refused hr (ih h')
  | rendered hr _ ih => exact .rendered hr (ih h')

theorem single {e : Event} (he : e.IsPlain) : Orderly s [e] :=
  .plain he .nil

theorem loaded_of_plain {e : Event} (he : e.IsPlain) : e.loaded r s = [] := by
  cases e with
  | act fuel scope a =>
    rw [Event.loaded, he s]
    split <;> rfl
  | template => exact he.elim
  | _ => rfl

theorem grafts_of_plain {e : Event} (he : e.IsPlain) : e.grafts r = [] := by
  cases e with
  | template => exact he.elim
  | _ => rfl

/-- At each moment the templates that were loaded are those whose macros were made known, and one more if its
macros are about to be. -/
theorem loaded_eq {before after : List Event} (h : Orderly s (before ++ after)) :
    s.loaded r before = before.flatMap (Event.grafts r) ++ Event.pending r after := by
  generalize hes : before ++ after = es at h
  induction h generalizing before with
  | nil =>
    obtain ⟨rfl, rfl⟩ := List.append_eq_nil_iff.1 hes
    rfl
  | @plain s e es he _ ih =>
    cases before with
    | nil =>
      obtain rfl : after = e :: es := hes
      exact (grafts_of_plain he).symm
    | cons e' before =>
      obtain ⟨rfl, rfl⟩ := List.cons_eq_cons.1 hes
      rw [Store.loaded, List.flatMap_cons, loaded_of_plain he, grafts_of_plain he]
      exact ih rfl
  | @refused s fuel scope l es hl _ ih =>
    cases before with
    | nil =>
      obtain rfl : after = .act fuel scope l.act :: es := hes
      rfl
    | cons e before =>
      obtain ⟨rfl, rfl⟩ := List.cons_eq_cons.1 hes
      have hnone : Event.loaded r s (.act fuel scope l.act) = [] := by simp [Event.loaded, hl]
      rw [Store.loaded, List.flatMap_cons, hnone]
      exact ih rfl
  | @rendered s fuel scope l t es hl _ ih =>
    have hload : Event.loaded r s (.act fuel scope l.act) = Event.grafts r (.template scope t) := by
      simp [Event.loaded, hl, Event.grafts]
    -- The moment may lie before the load, between the load and what it makes known, or after both.
    cases before with
    | nil =>
      obtain rfl : after = .act fuel scope l.act :: .template scope t :: es := hes
      rfl
    | cons e before =>
      obtain ⟨rfl, hrest⟩ := List.cons_eq_cons.1 hes
      cases before with
      | nil =>
        obtain rfl : after = .template scope t :: es := hrest
        rw [Store.loaded, hload]
        exact List.append_nil _
      | cons e' before =>
        obtain ⟨rfl, rfl⟩ := List.cons_eq_cons.1 hrest
        rw [Store.loaded, hload, List.flatMap_cons, List.flatMap_cons]
        show Event.grafts r (.template scope t) ++ Store.loaded r before _ =
          Event.grafts r (.template scope t) ++ before.flatMap (Event.grafts r) ++ Event.pending r after
        rw [List.append_assoc]
        exact congrArg (Event.grafts r (.template scope t) ++ ·) (ih rfl)

/-- The passes of a loop are orderly when its body is. -/
theorem passEvents {scope : Scope} {x : String} {l : LoopRef} {body : Run Unit}
    {events : Store → List Event} (hfollow : ∀ s, s.follow (events s) = body.after s)
    (hbody : ∀ s, Orderly s (events s)) (n : Nat) (s : Store) :
    Orderly s (Run.passEvents scope x l body events n s) := by
  induction n generalizing s with
  | zero => exact .nil
  | succ n ih =>
    rw [Run.passEvents]
    refine .plain trivial ?_
    rw [Event.effect, Run.after]
    cases (Run.loopNext l).toRun s with
    | error h s₁ => exact .nil
    | ok v s₁ =>
      cases v with
      | none => exact .nil
      | some v =>
        refine .plain trivial ((hbody _).append ?_)
        show Orderly (Store.follow (s₁.assign scope x v).2 (events (s₁.assign scope x v).2)) _
        rw [hfollow, Run.after]
        cases body (s₁.assign scope x v).2 with
        | error h s₂ => exact .nil
        | ok _ s₂ => exact ih s₂

end Orderly

namespace Script

variable {scope : Scope} {α : Type} {n : Nat}

/-- What a script does is orderly if it renders what it loads, and what is rendered one level deeper is
orderly. -/
theorem Speaks.orderly_step
    (ih : ∀ k, n = k + 1 → ∀ {scope : Scope} {α : Type} {y : Script scope α},
      y.Speaks (fun _ => True) → ∀ s, Orderly s (y.events k s))
    {y : Script scope α} (hy : y.Speaks fun _ => True) (s : Store) : Orderly s (y.events n s) := by
  have hinside : ∀ {scope : Scope} {α : Type} {y : Script scope α}, y.Speaks (fun _ => True) →
      ∀ s, Orderly s (inside n y s) := by
    intro scope α y hy s
    cases n with
    | zero => exact .nil
    | succ k => exact ih k rfl hy s
  have hnodes : ∀ (scope : Scope) (nodes : List Node) (s : Store),
      Orderly s (inside n (renderNodes scope nodes) s) := fun scope nodes s =>
    hinside (speaks_renderNodes nodes fun _ _ => trivial) s
  rw [events_eq]
  induction hy generalizing s with
  | done => exact .nil
  | @andThen α β y f _ _ ihy ihf =>
    rw [eventsIn]
    refine (ihy s).append ?_
    rw [← events_eq, follow_events, Run.after]
    cases y.run (Deeper.within n) s with
    | ok b s' => exact ihf b s'
    | error h s' => exact .nil
  | @act _ a ha =>
    refine .single fun s => ?_
    cases a with
    | load | parse => exact ha.elim
    | _ => rfl
  | directive l =>
    have hl := l.loaded_act (Deeper.within n).fuel scope s
    rw [eventsIn, eventsIn, run]
    cases hrun : l.act.run (Deeper.within n).fuel scope s with
    | ok t s' =>
      rw [hrun] at hl
      refine .rendered hl ?_
      rw [Run.after, hrun]
      exact hnodes _ _ _
    | error h s' =>
      rw [hrun] at hl
      exact .refused hl .nil
  | leave => exact .nil
  | @read x _ =>
    rw [eventsIn]
    cases s.lookup scope x with
    | argument c t => exact hinside (speaks_evalExpr t.expr false fun _ _ => trivial) s
    | block | stored => exact .nil
  | assign => exact .single trivial
  | capture _ ihy => exact .plain trivial ((ihy _).append (.single trivial))
  | rethrow _ ihy => exact ihy s
  | @loop x source body _ _ ihb =>
    refine .plain trivial (.plain trivial (.plain trivial (Orderly.append ?_ ?_)))
    · exact .passEvents (fun s => by rw [← events_eq, follow_events]) ihb n _
    · exact .plain trivial (.single trivial)
  | call => exact .plain trivial ((hnodes _ _ _).append (.single trivial))
  | block => exact .plain trivial ((hnodes _ _ _).append (.single trivial))
  | text => exact hinside (ofHost_textOf _).speaks s

/-- What a script does is orderly if it renders what it loads. -/
theorem Speaks.orderly {y : Script scope α} (hy : y.Speaks fun _ => True) (n : Nat) (s : Store) :
    Orderly s (y.events n s) := by
  induction n generalizing scope α s with
  | zero => exact Speaks.orderly_step (fun k h => absurd h (Nat.zero_ne_add_one k)) hy s
  | succ n ih =>
    refine Speaks.orderly_step (fun k h => ?_) hy s
    cases h
    exact fun hy s => ih hy s

end Script

/-- What an evaluation does is orderly. -/
theorem Template.orderly (n : Nat) (t : Template) (vars : Bindings Value) (host : HostKind) (s : Store) :
    Orderly s (t.eventsWithin n vars host s) := by
  refine .plain trivial (.plain trivial (Orderly.append ?_ (.single trivial)))
  cases n with
  | zero => exact .nil
  | succ k => exact (speaks_renderNodes t.document.nodes fun _ _ => trivial).orderly k _

/-! ### What an evaluation knows at a moment -/

namespace Store

variable {s : Store} {r : RootRef}

/-- An evaluation knows what it knew, and after that what the templates define that were rendered in it. -/
theorem findMacro_effect (e : Event) (hr : r.index < s.roots.size) (name : String) :
    findMacro? ((e.effect s).macros r) name =
      (findMacro? (s.macros r) name).or ((e.grafts r).findSome? fun t => findMacro? t.macros name) := by
  have hmacros : (e.effect s).macros r =
      ((e.grafts r).flatMap Template.macros).foldl addMacro (s.macros r) := by
    have hf := congrArg RootFrame.macros (e.fixed_effect hr)
    exact hf
  rw [hmacros, findMacro_foldl_addMacro]
  congr 1
  exact List.find?_flatMap

theorem findMacro_follow (es : List Event) (hr : r.index < s.roots.size) (name : String) :
    findMacro? ((s.follow es).macros r) name = (findMacro? (s.macros r) name).or
      ((es.flatMap (Event.grafts r)).findSome? fun t => findMacro? t.macros name) := by
  induction es generalizing s with
  | nil => simp
  | cons e es ih =>
    rw [follow_cons, ih (Nat.lt_of_lt_of_le hr (e.size_roots_effect s)), findMacro_effect e hr,
      List.flatMap_cons, List.findSome?_append, Option.or_assoc]

/-- What a name is bound to in an evaluation stays. -/
theorem findMacro_stays {name : String} {m : MacroDef} (h : findMacro? (s.macros r) name = some m)
    (es : List Event) : findMacro? ((s.follow es).macros r) name = some m := by
  have hr : r.index < s.roots.size := by
    refine Nat.lt_of_not_le fun hge => ?_
    have hdefault : s.root r = default := by
      simp [Store.root, Heap.get, Array.getElem?_eq_none hge]
    rw [Store.macros, hdefault] at h
    cases h
  rw [findMacro_follow es hr, h, Option.some_or]

/-- What a loader has under a name stays. -/
theorem cache_stays {l : LoaderRef} {name : String} {t : Template}
    (h : (s.loaders.get l.index).cache.get? name = some t) (es : List Event) :
    ((s.follow es).loaders.get l.index).cache.get? name = some t := by
  refine follow_induction (P := fun s => (s.loaders.get l.index).cache.get? name = some t) ?_ h es
  intro e s h
  have hl : l.index < s.loaders.size := by
    refine Nat.lt_of_not_le fun hge => ?_
    have hdefault : s.loaders.get l.index = default := by
      simp [Heap.get, Array.getElem?_eq_none hge]
    rw [hdefault] at h
    cases h
  rcases e.loads_cases hl with ⟨-, hsame⟩ | ⟨name', t', -, hold, hput⟩
  · rw [hsame, h]
  · rw [hput, Bindings.get?_put]
    split
    · rename_i hname
      rw [← hname, h] at hold
      rcases hold with hnone | hsome
      · cases hnone
      · exact hsome.symm
    · exact h

end Store

namespace Template

variable (n : Nat) (t : Template) (vars : Bindings Value) (host : HostKind) (s : Store)

/-- The store at a moment of an evaluation that has begun, after so many further events. -/
def storeAt (k : Nat) : Store :=
  s.follow ((t.eventsWithin n vars host s).take (k + 1))

/-- At every moment of an evaluation a name is bound to the macro that the template itself defines, and
otherwise to that of the first template that was loaded in the evaluation and defines the name. Loaded are the
templates whose macros were made known, and at the moment before that one more. What a name is bound to in
this evaluation or another one stays so, and so does the template that a loader has under a name. -/
theorem macros_over_runs (k : Nat) :
    let r : RootRef := ⟨s.roots.size⟩
    let events := t.eventsWithin n vars host s
    let made := (events.take (k + 1)).flatMap (Event.grafts r)
    t.storeAt n vars host s events.length = (t.evaluateWithin n vars host).after s ∧
    (∀ name, findMacro? ((t.storeAt n vars host s k).macros r) name =
      (findMacro? t.macros name).or (made.findSome? fun t' => findMacro? t'.macros name)) ∧
    s.loaded r (events.take (k + 1)) = made ++ Event.pending r (events.drop (k + 1)) ∧
    (∀ (later : Nat) (q : RootRef) (name : String) (m : MacroDef), k ≤ later →
      findMacro? ((t.storeAt n vars host s k).macros q) name = some m →
      findMacro? ((t.storeAt n vars host s later).macros q) name = some m) ∧
    (∀ (later : Nat) (l : LoaderRef) (name : String) (t' : Template), k ≤ later →
      ((t.storeAt n vars host s k).loaders.get l.index).cache.get? name = some t' →
      ((t.storeAt n vars host s later).loaders.get l.index).cache.get? name = some t') := by
  intro r events made
  have hlater : ∀ later, k ≤ later → ∃ es, t.storeAt n vars host s later =
      (t.storeAt n vars host s k).follow es := by
    intro later hk
    obtain ⟨d, rfl⟩ := Nat.exists_eq_add_of_le hk
    refine ⟨(events.drop (k + 1)).take d, ?_⟩
    rw [storeAt, storeAt, Nat.add_right_comm, List.take_add, Store.follow_append]
  refine ⟨?_, fun name => ?_, ?_, fun later q name m hk h => ?_, fun later l name t' hk h => ?_⟩
  · rw [storeAt, List.take_of_length_le (Nat.le_succ _), follow_eventsWithin]
  · have hr : r.index < (s.enterRoot ⟨vars, t.macros, host, t.loader⟩).2.roots.size := by
      simp [r, Store.enterRoot]
    have hown : (s.enterRoot ⟨vars, t.macros, host, t.loader⟩).2.macros r = t.macros := by
      rw [Store.macros, Store.root, Store.enterRoot, Heap.get_alloc, if_pos rfl]
    have hknows := Store.findMacro_follow (events.tail.take k) hr name
    rw [hown] at hknows
    exact hknows
  · refine Orderly.loaded_eq ?_
    rw [List.take_append_drop]
    exact t.orderly n vars host s
  · obtain ⟨es, hes⟩ := hlater later hk
    rw [hes]
    exact Store.findMacro_stays h es
  · obtain ⟨es, hes⟩ := hlater later hk
    rw [hes]
    exact Store.cache_stays h es

end Template

end Stencil
