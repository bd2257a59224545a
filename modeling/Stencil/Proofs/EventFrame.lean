import Stencil.Proofs.Alike
import Stencil.Proofs.Answer
import Stencil.Proofs.Events
import Stencil.Proofs.RootFrames

/-!
# What an event changes

An evaluation keeps its host and its loader, and knows more macros only where a template is rendered in it. A
loader keeps what it has, and has more only where it is asked for a name and gives a template for it.
-/

namespace Stencil

/-! ### Evaluations -/

/-- A step that leaves variables and parameters alone leaves evaluations alone. -/
theorem Store.SameRoots.of_apart {scope : Scope} {α : Type} {x : Run α} (h : Run.Apart scope x) (s : Store) :
    s.SameRoots (x.after s) :=
  .of_eq (h s).roots

namespace Event

/-- The templates whose macros an event makes known to an evaluation. -/
def grafts (r : RootRef) : Event → List Template
  | template scope t => if scope.root = r then [t] else []
  | _ => []

variable {s : Store} {r : RootRef}

/-- Whether an event neither begins an evaluation nor makes macros known. -/
def IsSteady : Event → Prop
  | template .. | beginRoot _ => False
  | _ => True

theorem steady_or (e : Event) : e.IsSteady ∨ (∃ scope t, e = template scope t) ∨ ∃ f, e = beginRoot f := by
  cases e <;> simp [IsSteady]

/-- Other events leave evaluations alone but for their variables. -/
theorem sameRoots_effect : (e : Event) → e.IsSteady → s.SameRoots (e.effect s)
  | act fuel scope a, _ => .of_apart (a.apart fuel scope) s
  | assign scope x v, _ => s.sameRoots_assign scope x v
  | undo u, _ => s.sameRoots_undo u
  | newLoop source, _ => .of_apart (.toRun (Run.newLoop source) : Run.Apart default _) s
  | loopNext r, _ => .of_apart (.toRun (Run.loopNext r) : Run.Apart default _) s
  | beginCall scope m args body, _ => s.sameRoots_beginCall scope m args body
  | endCall c, _ => s.sameRoots_restoreParams c
  | setText _, _ | outside .., _ => .of_eq rfl
  | load r name, _ => .of_apart (.load r name : Run.Apart default _) s
  | parseResource r name, _ => .of_apart (.parseResource r name : Run.Apart default _) s
  | parseText r resource text, _ => .of_apart (.parseText r resource text : Run.Apart default _) s

theorem grafts_of_steady {e : Event} (h : e.IsSteady) : e.grafts r = [] := by
  cases e with
  | template => exact h.elim
  | _ => rfl

/-- No event ends an evaluation that has begun. -/
theorem size_roots_effect (e : Event) (s : Store) : s.roots.size ≤ (e.effect s).roots.size := by
  rcases e.steady_or with h | ⟨scope, t, rfl⟩ | ⟨f, rfl⟩
  · exact Nat.le_of_eq (sameRoots_effect e h).size.symm
  · exact Nat.le_of_eq (by simp [effect, Store.addMacros, Store.setRoot])
  · exact Nat.le_of_lt (by simp [effect, Store.enterRoot])

/-- Besides its variables an event changes nothing of an evaluation but the macros known to it. -/
theorem fixed_effect (e : Event) (hr : r.index < s.roots.size) :
    ((e.effect s).root r).fixed = { (s.root r).fixed with
      macros := ((e.grafts r).flatMap Template.macros).foldl addMacro (s.macros r) } := by
  rcases e.steady_or with h | ⟨scope, t, rfl⟩ | ⟨f, rfl⟩
  · rw [(sameRoots_effect e h).fixed r, grafts_of_steady h]
    rfl
  · rw [effect, s.fixed_addMacros r t.macros hr, grafts]
    by_cases hs : scope.root = r <;> simp [hs]
  · rw [effect, Store.root, Store.enterRoot, Heap.get_alloc, if_neg (Nat.ne_of_lt hr)]
    rfl

end Event

/-! ### Taking back changes variables and parameters only -/

namespace Store

variable (s : Store)

theorem bare_undo (u : Undo) : (undo u s).bare = s.bare := by
  induction u generalizing s with
  | rebind r x former => cases former <;> rfl
  | unhide k inner ih =>
    rw [undo_unhide]
    split
    · rfl
    · exact ih (s.finish k)

theorem bare_undoAll (us : List Undo) : (us.foldl (fun s u => undo u s) s).bare = s.bare := by
  induction us generalizing s with
  | nil => rfl
  | cons u us ih => exact (ih (undo u s)).trans (s.bare_undo u)

theorem loaders_of_bare {s s' : Store} (h : s'.bare = s.bare) : s'.loaders = s.loaders := by
  have hl := congrArg Store.loaders h
  exact hl

theorem toCells_of_bare {s s' : Store} (h : s'.bare = s.bare) : s'.toCells = s.toCells := by
  have hcells := congrArg Store.toCells h
  exact hcells

theorem blocks_of_bare {s s' : Store} (h : s'.bare = s.bare) : s'.blocks = s.blocks := by
  have hblocks := congrArg Store.blocks h
  exact hblocks

theorem bare_restoreParams (c : CallRef) : (s.restoreParams c).bare = s.bare :=
  bare_undoAll (s.setCall c { s.call c with hidden := [] }) (s.call c).hidden

end Store

/-! ### Loaders -/

/-- What a step gives, if it does not stop early. -/
def Run.given {α : Type} : EStateM.Result Halt Store α → Option α
  | .ok a _ => some a
  | .error _ _ => none

/-- The name that an act asks the loader for. -/
def Act.asks? : {α : Type} → Act α → Option String
  | _, load _ name => some name
  | _, _ => none

namespace Event

/-- The loader that an event asks for a name, and the name. -/
def asks? (s : Store) : Event → Option (LoaderRef × String)
  | act _ scope a => a.asks?.map fun name => ((s.root scope.root).loader, name)
  | load r name => some (r, name)
  | _ => none

/-- The name that a loader is asked for in an event, with the template that it gives, if it gives one. -/
def loads (r : LoaderRef) (s : Store) (e : Event) : Bindings Template :=
  match e.asks? s with
  | some (q, name) => if q = r then ((Run.given (Run.load q name s)).map (name, ·)).toList else []
  | none => []

end Event

namespace Run

variable {s : Store}

/-- A loader gives what it has under a name, and otherwise reads a template and keeps it. -/
theorem load_eq (r : LoaderRef) (name : String) (s : Store) :
    load r name s = match (s.loaders.get r.index).cache.get? name with
      | some t => .ok t s
      | none => match parseResource r name s with
        | .ok t s' => .ok t (s'.keep r name t)
        | .error h s' => .error h s' := by
  show (match (s.loaders.get r.index).cache.get? name with
    | some t => (return t : Run Template)
    | none => parseResource r name >>= fun t => loader r >>= fun l =>
        (modify fun s : Store =>
          { s with loaders := s.loaders.set r.index { l with cache := l.cache.put name t } }) >>= fun _ =>
            return t) s = _
  cases (s.loaders.get r.index).cache.get? name with
  | some t => rfl
  | none =>
    show EStateM.bind _ _ s = _
    rw [EStateM.bind]
    cases parseResource r name s <;> rfl

theorem after_loadAt (scope : Scope) (place : Place) (name : String) :
    (loadAt scope place name).after s = (load (s.root scope.root).loader name).after s := by
  rw [loadAt, after_mapFailure]
  rfl

theorem Gives.after_eq {answer : Except Halt Document} {s' : Store} {x : Run Template}
    (h : Gives answer s' (x s)) : x.after s = s' := by
  rw [after]
  generalize x s = result at h
  cases h <;> rfl

theorem loaders_parseText (r : LoaderRef) (resource : Option String) (text : String) :
    ((parseText r resource text).after s).loaders = s.loaders := by
  obtain ⟨s', -, hl, hgives⟩ := gives_parseText s r resource text
  rw [hgives.after_eq, hl]

theorem loaders_parseResource (r : LoaderRef) (name : String) :
    ((parseResource r name).after s).loaders = s.loaders := by
  obtain ⟨s', -, hl, hgives⟩ := gives_parseResource s r name
  rw [hgives.after_eq, hl]

theorem loaders_parseAt (scope : Scope) (place : Place) (text : String) :
    ((parseAt scope place text).after s).loaders = s.loaders := by
  rw [parseAt, after_mapFailure]
  exact loaders_parseText _ _ _

/-- How a loader answers when it is asked for a name: with what it has, with a template that it keeps from
then on, or not at all. -/
inductive Answers (r : LoaderRef) (name : String) (s : Store) : EStateM.Result Halt Store Template → Prop
  | kept {t : Template} (h : (s.loaders.get r.index).cache.get? name = some t) : Answers r name s (.ok t s)
  | read {t : Template} {s' : Store} (h : (s.loaders.get r.index).cache.get? name = none)
      (hl : s'.loaders = s.loaders) : Answers r name s (.ok t (s'.keep r name t))
  | refused {e : Halt} {s' : Store} (h : (s.loaders.get r.index).cache.get? name = none)
      (hl : s'.loaders = s.loaders) : Answers r name s (.error e s')

theorem answers_load (r : LoaderRef) (name : String) (s : Store) : Answers r name s (load r name s) := by
  rw [load_eq]
  cases hc : (s.loaders.get r.index).cache.get? name with
  | some t => exact .kept hc
  | none =>
    have hl := loaders_parseResource (s := s) r name
    rw [after] at hl
    show Answers r name s (match parseResource r name s with
      | .ok t s' => .ok t (s'.keep r name t)
      | .error h s' => .error h s')
    cases hp : parseResource r name s with
    | ok t s' =>
      rw [hp] at hl
      exact .read hc hl
    | error e s' =>
      rw [hp] at hl
      exact .refused hc hl

end Run

namespace Event

variable {s : Store} {r : LoaderRef}

/-- An act that asks the loader for no name leaves the loaders alone. -/
theorem loaders_act {fuel : Nat} {scope : Scope} {α : Type} {a : Act α} (h : a.asks? = none) :
    ((a.run fuel scope).after s).loaders = s.loaders := by
  cases a with
  | step x =>
    rw [Act.run, Run.after, Step.toRun]
    cases x s.toCells <;> rfl
  | parse place text => exact Run.loaders_parseAt scope place text
  | load => cases h
  | _ => rfl

/-- An event in which no loader is asked for a name leaves the loaders alone. -/
theorem loaders_effect_of_none {e : Event} (h : e.asks? s = none) : (e.effect s).loaders = s.loaders := by
  cases e with
  | act fuel scope a => exact loaders_act (Option.map_eq_none_iff.1 h)
  | assign scope x v => exact Store.loaders_of_bare (s.bare_assignIn scope.root x v scope.calls)
  | undo u => exact Store.loaders_of_bare (s.bare_undo u)
  | newLoop source => rfl
  | loopNext q =>
    rw [effect, Run.after, Step.toRun]
    cases Run.loopNext q s.toCells <;> rfl
  | beginCall scope m args body => cases body <;> rfl
  | endCall c => exact Store.loaders_of_bare (s.bare_restoreParams c)
  | parseResource q name => exact Run.loaders_parseResource q name
  | parseText q resource text => exact Run.loaders_parseText q resource text
  | load => cases h
  | template | setText | beginRoot | outside => rfl

/-- An event in which a loader is asked for a name does to the loaders what that does. -/
theorem loaders_effect_of_some {e : Event} {name : String} (h : e.asks? s = some (r, name)) :
    (e.effect s).loaders = ((Run.load r name).after s).loaders := by
  cases e with
  | act fuel scope a =>
    cases a with
    | load place name =>
      cases h
      rw [effect, Act.run, Run.after_loadAt]
    | _ => cases h
  | load q name =>
    cases h
    rfl
  | _ => cases h

theorem size_loaders_effect (e : Event) (s : Store) : (e.effect s).loaders.size = s.loaders.size := by
  cases h : e.asks? s with
  | none => rw [loaders_effect_of_none h]
  | some p =>
    obtain ⟨q, name⟩ := p
    rw [loaders_effect_of_some h, Run.after]
    have ha := Run.answers_load q name s
    generalize Run.load q name s = result at ha
    cases ha with
    | kept => rfl
    | read _ hl => exact (Heap.size_set ..).trans (congrArg Heap.size hl)
    | refused _ hl => exact congrArg Heap.size hl

/-- In an event a loader gives one template at most, which it has already or else has from then on. -/
theorem loads_cases (e : Event) (hr : r.index < s.loaders.size) :
    e.loads r s = [] ∧ (e.effect s).loaders.get r.index = s.loaders.get r.index ∨
      ∃ name t, e.loads r s = [(name, t)] ∧
        ((s.loaders.get r.index).cache.get? name = none ∨
          (s.loaders.get r.index).cache.get? name = some t) ∧
        (e.effect s).loaders.get r.index = { s.loaders.get r.index with
          cache := (s.loaders.get r.index).cache.put name t } := by
  cases h : e.asks? s with
  | none => exact .inl ⟨by rw [loads, h], by rw [loaders_effect_of_none h]⟩
  | some p =>
    obtain ⟨q, name⟩ := p
    have ha := Run.answers_load q name s
    rw [loaders_effect_of_some h, Run.after, loads, h]
    dsimp only
    generalize Run.load q name s = result at ha
    by_cases hq : q = r
    · subst hq
      rw [if_pos rfl]
      cases ha with
      | @kept t hc =>
        refine .inr ⟨name, t, rfl, .inr hc, ?_⟩
        rw [Bindings.put_of_get? hc]
      | @read t s' hc hl =>
        refine .inr ⟨name, t, rfl, .inl hc, ?_⟩
        rw [Store.keep, Heap.get_set (hl ▸ hr), if_pos rfl, hl]
      | refused _ hl => exact .inl ⟨rfl, by rw [hl]⟩
    · rw [if_neg hq]
      refine .inl ⟨rfl, ?_⟩
      cases ha with
      | kept => rfl
      | @read t s' _ hl =>
        rw [Store.keep, Heap.get_set_of_ne _ (mt LoaderRef.index_inj.1 (Ne.symm hq)), hl]
      | refused _ hl => rw [hl]

end Event

end Stencil
