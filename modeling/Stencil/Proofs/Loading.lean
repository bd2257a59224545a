import Stencil.Proofs.EventFrame

/-!
# What a loader has loaded

A loader reads each name once: what it gave for a name the first time, it gives ever after, whatever becomes
of the text or the file, and it never opens the name again. A name that it could not read it tries again. This
holds at every moment of whatever is done with the loader: `Loader.loads_over_runs`.
-/

namespace Stencil

/-- The names that a loader was asked for in some events, in order, each with what the loader gave; where it
gave nothing the name is missing. -/
def Store.loads (r : LoaderRef) : List Event → Store → Bindings Template
  | [], _ => []
  | e :: es, s => e.loads r s ++ Store.loads r es (e.effect s)

theorem Store.loads_append (r : LoaderRef) (es es' : List Event) (s : Store) :
    s.loads r (es ++ es') = s.loads r es ++ (s.follow es).loads r es' := by
  induction es generalizing s with
  | nil => rfl
  | cons e es ih =>
    rw [List.cons_append, Store.loads, ih, Store.loads, List.append_assoc]
    rfl

namespace Loader

/-- Whether a loader has kept what it gave: under each name what it gave for it first, which is what it gave
for it every time, and nothing else. -/
structure Holds (l : Loader) (opener : Opener) (loaded : Bindings Template) : Prop where
  opener : l.opener = opener
  cache : ∀ name, l.cache.get? name = loaded.get? name
  nodup : l.cache.names.Nodup
  fixed : ∀ name t, (name, t) ∈ loaded → loaded.get? name = some t

namespace Holds

variable {l : Loader} {opener : Opener} {loaded : Bindings Template} {r : LoaderRef} {s : Store}

/-- The names that the loader has are those that it was asked for with success. -/
theorem mem_names (h : l.Holds opener loaded) (name : String) :
    name ∈ l.cache.names ↔ name ∈ loaded.names := by
  rw [Bindings.mem_names_iff, Bindings.mem_names_iff, h.cache]

/-- A template that the loader has not given before is kept, one that it has given is given again. -/
theorem put (h : l.Holds opener loaded) {name : String} {t : Template}
    (hold : l.cache.get? name = none ∨ l.cache.get? name = some t) :
    Holds { l with cache := l.cache.put name t } opener (loaded ++ [(name, t)]) := by
  have hfirst : (loaded ++ [(name, t)] : Bindings Template).get? name = some t := by
    rw [Bindings.get?_append, ← h.cache]
    rcases hold with hnone | hsome
    · simp [hnone, Bindings.get?]
    · simp [hsome]
  refine ⟨h.opener, fun y => ?_, Bindings.nodup_names_put h.nodup name t, fun y u hmem => ?_⟩
  · rw [Bindings.get?_put]
    split
    · rename_i hy
      rw [hy, hfirst]
    · rename_i hy
      rw [Bindings.get?_append, h.cache]
      simp [Bindings.get?, Ne.symm hy]
  · rcases List.mem_append.1 hmem with hmem | hmem
    · rw [Bindings.get?_append, h.fixed y u hmem, Option.some_or]
    · cases List.mem_singleton.1 hmem
      exact hfirst

theorem effect (h : (s.loaders.get r.index).Holds opener loaded) (hr : r.index < s.loaders.size)
    (e : Event) : ((e.effect s).loaders.get r.index).Holds opener (loaded ++ e.loads r s) := by
  rcases e.loads_cases hr with ⟨hloads, hsame⟩ | ⟨name, t, hloads, hold, hput⟩
  · rw [hloads, hsame, List.append_nil]
    exact h
  · rw [hloads, hput]
    exact h.put hold

/-- What a loader gave is kept through all that happens. -/
theorem follow (h : (s.loaders.get r.index).Holds opener loaded) (hr : r.index < s.loaders.size)
    (es : List Event) : ((s.follow es).loaders.get r.index).Holds opener (loaded ++ s.loads r es) := by
  induction es generalizing s loaded with
  | nil =>
    rw [Store.loads, List.append_nil]
    exact h
  | cons e es ih =>
    rw [Store.loads, ← List.append_assoc]
    exact ih (h.effect hr e) (by rw [e.size_loaders_effect]; exact hr)

end Holds

/-! ### Using a loader -/

/-- What is done while a loader is in use: it is asked for a name, reads a name or a text, or templates are
evaluated, with this loader or another; and outside the host works, and texts and files change. -/
inductive Use where
  | load (name : String)
  | parseResource (name : String)
  | parseText (resource : Option String) (text : String)
  | evaluate (t : Template) (n : Nat) (vars : Bindings Value) (host : HostKind)
  | outside (cells : Cells) (texts : Bindings String) (files : FileTree)

/-- The store after a use of a loader, however it ends. -/
def Use.after (r : LoaderRef) : Use → Store → Store
  | load name, s => (Run.load r name).after s
  | parseResource name, s => (Run.parseResource r name).after s
  | parseText resource text, s => (Run.parseText r resource text).after s
  | evaluate t n vars host, s => (t.evaluateWithin n vars host).after s
  | outside cells texts files, s => { s with toCells := cells, texts := texts, files := files }

/-- The events of a use of a loader. -/
def Use.events (r : LoaderRef) : Use → Store → List Event
  | load name, _ => [.load r name]
  | parseResource name, _ => [.parseResource r name]
  | parseText resource text, _ => [.parseText r resource text]
  | evaluate t n vars host, s => t.eventsWithin n vars host s
  | outside cells texts files, _ => [.outside cells texts files]

theorem Use.follow_events (r : LoaderRef) (u : Use) (s : Store) : s.follow (u.events r s) = u.after r s := by
  cases u with
  | evaluate t n vars host => exact t.follow_eventsWithin n vars host s
  | _ => rfl

/-- The events of uses of a loader, one after another. -/
def usesEvents (r : LoaderRef) : List Use → Store → List Event
  | [], _ => []
  | u :: us, s => u.events r s ++ usesEvents r us (u.after r s)

theorem follow_usesEvents (r : LoaderRef) (us : List Use) (s : Store) :
    s.follow (usesEvents r us s) = us.foldl (fun s u => u.after r s) s := by
  induction us generalizing s with
  | nil => rfl
  | cons u us ih => rw [usesEvents, Store.follow_append, u.follow_events, ih, List.foldl_cons]

/-- A name that a loader has is not opened again, neither directly nor by a directive. -/
theorem load_of_cached {r : LoaderRef} {name : String} {t : Template} {s : Store}
    (h : (s.loaders.get r.index).cache.get? name = some t) :
    Run.load r name s = .ok t s ∧ ∀ (scope : Scope) (place : Place), (s.root scope.root).loader = r →
      Run.loadAt scope place name s = .ok t s := by
  have hload : Run.load r name s = .ok t s := by rw [Run.load_eq, h]
  refine ⟨hload, fun scope place hscope => ?_⟩
  have hinner : (Run.loaderOf scope >>= fun q => Run.load q name) s = .ok t s := by
    show Run.load (s.root scope.root).loader name s = _
    rw [hscope, hload]
  rw [Run.loadAt, Run.mapFailure, hinner]

/-- However a loader is used from the time it is new, and whatever becomes of the texts and files meanwhile:
at every moment it has, under each name, the template that it gave for it first, and has no other names. At
any later moment it gives this template, and does nothing else, when it is asked for the name directly or by
a directive. Under a name for which it has given nothing it tries again, with the text or file of that moment,
and keeps the template that it reads; if it cannot read one it stays as it is. Reading a template otherwise
leaves all loaders as they are. -/
theorem loads_over_runs (opener : Opener) (s₀ : Store) (uses : List Use) (k : Nat) :
    let r : LoaderRef := ⟨s₀.loaders.size⟩
    let s₁ := (Run.newLoader opener).after s₀
    let events := usesEvents r uses s₁
    let s := s₁.follow (events.take k)
    let loaded := s₁.loads r (events.take k)
    s₁.follow events = uses.foldl (fun s u => u.after r s) s₁ ∧
    (s.loaders.get r.index).Holds opener loaded ∧
    (∀ name, name ∈ (s.loaders.get r.index).cache.names ↔ name ∈ loaded.names) ∧
    (∀ name t, loaded.get? name = some t → ∀ later, k ≤ later →
      let s' := s₁.follow (events.take later)
      Run.load r name s' = .ok t s' ∧ ∀ (scope : Scope) (place : Place), (s'.root scope.root).loader = r →
        Run.loadAt scope place name s' = .ok t s') ∧
    (∀ name, loaded.get? name = none →
      (∃ s', s'.loaders = s.loaders ∧ Run.Gives (s.readUnder opener name) s' (Run.parseResource r name s)) ∧
      Run.load r name s = match Run.parseResource r name s with
        | .ok t s' => .ok t (s'.keep r name t)
        | .error h s' => .error h s') ∧
    (∀ name, ((Run.parseResource r name).after s).loaders = s.loaders) ∧
    (∀ resource text, ((Run.parseText r resource text).after s).loaders = s.loaders) ∧
    (∀ scope place text, ((Run.parseAt scope place text).after s).loaders = s.loaders) := by
  intro r s₁ events s loaded
  have hloaders : s₁.loaders = s₀.loaders.alloc ⟨opener, []⟩ := rfl
  have hr : r.index < s₁.loaders.size := by
    rw [hloaders, Heap.size_alloc]
    exact Nat.lt_succ_self _
  have hnew : (s₁.loaders.get r.index).Holds opener [] := by
    rw [hloaders, Heap.get_alloc, if_pos rfl]
    exact ⟨rfl, fun _ => rfl, List.nodup_nil, fun _ _ h => absurd h List.not_mem_nil⟩
  have hholds : ∀ j, ((s₁.follow (events.take j)).loaders.get r.index).Holds opener
      (s₁.loads r (events.take j)) := fun j => hnew.follow hr _
  refine ⟨follow_usesEvents r uses s₁, hholds k, (hholds k).mem_names, fun name t ht later hk => ?_,
    fun name hname => ⟨?_, ?_⟩, Run.loaders_parseResource r, Run.loaders_parseText r, Run.loaders_parseAt⟩
  · -- What was given at a moment has been given at every later one.
    obtain ⟨d, rfl⟩ := Nat.exists_eq_add_of_le hk
    refine load_of_cached ?_
    rw [(hholds (k + d)).cache, List.take_add, Store.loads_append, Bindings.get?_append, ht,
      Option.some_or]
  · obtain ⟨s', -, hl, hgives⟩ := Run.gives_parseResource s r name
    rw [(hholds k).opener] at hgives
    exact ⟨s', hl, hgives⟩
  · have hload := Run.load_eq r name s
    rw [(hholds k).cache, hname] at hload
    exact hload

end Loader

end Stencil
