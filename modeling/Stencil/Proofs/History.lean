import Stencil.Proofs.Lockstep

/-!
# Earlier evaluations cannot be observed

A template keeps only its tree and its loader, and what the loader gives never changes. However often a
template was evaluated before, and however those evaluations ended, evaluating it therefore does the same
as evaluating a copy of it that was read afresh: `history_unobservable`.
-/

namespace Stencil

open Store (Twins)

/-! ### Evaluating templates that are alike -/

section

variable {π : Pairing} {s t : Store}

theorem Store.Twins.enterRoot (h : Twins π s t) {f f' : RootFrame} (hf : f.Like π f') :
    (s.enterRoot f).1 = (t.enterRoot f').1 ∧ Twins π (s.enterRoot f).2 (t.enterRoot f').2 :=
  ⟨congrArg (Scope.mk [] ⟨·⟩) h.roots.size,
    h.cells, h.written, h.left, h.right, h.roots.alloc hf, h.calls, h.shadows, h.blocks⟩

/-- The frame in which an evaluation of a template begins. -/
def Template.frame (t : Template) (vars : Bindings Value) (host : HostKind) : RootFrame :=
  ⟨vars, t.macros, host, t.loader⟩

theorem Template.evaluateWithin_eq (e : Template) (n : Nat) (vars : Bindings Value) (host : HostKind)
    (s : Store) : e.evaluateWithin n vars host s =
      Run.capture (Run.endBreaks ((Deeper.within n).render (s.enterRoot (e.frame vars host)).1
        e.document.nodes)) (s.enterRoot (e.frame vars host)).2 :=
  rfl

/-- Whether an evaluation of a template takes the source text of an expression only where it shows all of
the expression. -/
def Template.DiscreetWithin (t : Template) (n : Nat) (vars : Bindings Value) (host : HostKind)
    (s : Store) : Prop :=
  ∀ k, n = k + 1 → (renderNodes (s.enterRoot (t.frame vars host)).1 t.document.nodes).Discreet k
    { (s.enterRoot (t.frame vars host)).2 with written := "" }

/-- Evaluating templates that are alike, with loaders that go together. -/
theorem Template.agree_evaluateWithin (hread : ReadsAlike π.strict) (h : Twins π s t) {e e' : Template}
    (hd : LikeDocument π.strict e.document e'.document) (hl : π.paired e.loader e'.loader) (n : Nat)
    (vars : Bindings Value) (host : HostKind)
    (hy : π.strict = true ∨ e.DiscreetWithin n vars host s) :
    Agree π Eq (e.evaluateWithin n vars host s) (e'.evaluateWithin n vars host t) := by
  have hroot : (e.frame vars host).Like π (e'.frame vars host) :=
    ⟨rfl, rfl, likeMacro_find hd.macros, hl⟩
  obtain ⟨hscope, henter⟩ := h.enterRoot hroot
  have h' := henter.withWritten ""
  rw [evaluateWithin_eq, evaluateWithin_eq, ← hscope]
  refine .capture henter (.endBreaks (Run.agree_render h' fun k hk => ?_))
  exact hd.nodes.script.agree hread k (hy.imp_right fun hy => hy k hk) h'

end

/-! ### What evaluations leave as it was -/

/-- Each evaluation of the store, under way or over, has a loader that exists. -/
def Store.Grounded (s : Store) : Prop :=
  ∀ r, (s.root r).loader.index < s.loaders.size

/-- A store with itself: loaders go with themselves, and exist. -/
def Pairing.same (l : Library) : Pairing where
  strict := true
  left := l
  right := l
  paired r r' := r = r' ∧ r.index < l.loaders
  alike h _ := h.1 ▸ .refl _

theorem Store.Twins.same {s : Store} (hs : s.Grounded) : Twins (.same s.library) s s :=
  .refl rfl rfl fun r => ⟨rfl, hs r⟩

/-- What happens between two moments: evaluations of templates, however they end, and whatever the host
does with its cells, but no change of texts or files. -/
inductive Store.History : Store → Store → Prop
  | nothing {s : Store} : History s s
  | evaluation {s s' : Store} (before : History s s') (t : Template)
      (ht : t.loader.index < s'.loaders.size) (n : Nat) (vars : Bindings Value) (host : HostKind) :
      History s ((t.evaluateWithin n vars host).after s')
  | outside {s s' : Store} (before : History s s') (cells : Cells) :
      History s { s' with toCells := cells }

namespace Store

variable {s s' : Store}

/-- An evaluation changes nothing of what loading gives. -/
theorem Grounded.evaluation (hs : s.Grounded) {t : Template} (ht : t.loader.index < s.loaders.size)
    (n : Nat) (vars : Bindings Value) (host : HostKind) :
    ((t.evaluateWithin n vars host).after s).library = s.library ∧
      ((t.evaluateWithin n vars host).after s).Grounded := by
  have hrun := Template.agree_evaluateWithin (.inl rfl) (Twins.same hs) (.refl t.document) ⟨rfl, ht⟩ n
    vars host (.inl rfl)
  have hend : Twins (.same s.library) ((t.evaluateWithin n vars host).after s)
      ((t.evaluateWithin n vars host).after s) := by
    rw [Run.after]
    generalize t.evaluateWithin n vars host s = r at hrun
    cases hrun with
    | ok _ h => exact h
    | error _ h => exact h
  refine ⟨hend.left, fun r => ?_⟩
  have hsize : ((t.evaluateWithin n vars host).after s).loaders.size = s.loaders.size :=
    congrArg Library.loaders hend.left
  rw [hsize]
  exact (hend.root r).loader.2

/-- Nothing that happens changes what loading gives. -/
theorem History.library (h : History s s') (hs : s.Grounded) :
    s'.library = s.library ∧ s'.Grounded := by
  induction h with
  | nothing => exact ⟨rfl, hs⟩
  | evaluation _ t ht n vars host ih =>
    obtain ⟨hl, hg⟩ := ih
    obtain ⟨hl', hg'⟩ := hg.evaluation ht n vars host
    exact ⟨hl'.trans hl, hg'⟩
  | outside _ cells ih => exact ih

end Store

/-! ### Reading a template -/

/-- Where a template comes from: a text of its own, or a name that an opener knows. -/
inductive Origin where
  | unnamed (text : String)
  | named (opener : Opener) (name : String)

namespace Origin

/-- Reads the template, with a new loader. -/
def read : Origin → Run Template
  | .unnamed text => Template.ofText text
  | .named opener name => Template.ofName opener name

/-- The opener of the new loader. -/
def opener : Origin → Opener
  | .unnamed _ => .noNames
  | .named opener _ => opener

/-- The document that reading gives, or why there is none. -/
def document (s : Store) : Origin → Except Halt Document
  | .unnamed text => (Document.read none text).mapError ParseFailure.halt
  | .named opener name => s.readUnder opener name

/-- The store with a new loader that has loaded nothing. -/
def enter (o : Origin) (s : Store) : Store :=
  { s with loaders := s.loaders.alloc ⟨o.opener, []⟩ }

/-- Reading a template ends with its document, and adds a loader that has loaded nothing. -/
theorem gives_read (o : Origin) (s : Store) :
    ∃ s', (o.enter s).Reads s' ∧ s'.loaders = (o.enter s).loaders ∧
      Run.Gives (o.document s) s' (o.read s) := by
  cases o with
  | unnamed text => exact Run.gives_parseText (enter (.unnamed text) s) ⟨s.loaders.size⟩ none text
  | named opener name =>
    have h := Run.gives_parseResource (enter (.named opener name) s) ⟨s.loaders.size⟩ name
    have hget : (enter (.named opener name) s).loaders.get s.loaders.size = ⟨opener, []⟩ := by
      rw [enter, Heap.get_alloc, if_pos rfl]
      rfl
    rw [hget] at h
    exact h

theorem loader_read {o : Origin} {s s' : Store} {t : Template} (h : o.read s = .ok t s') :
    t.loader = ⟨s.loaders.size⟩ := by
  cases o with
  | unnamed text => exact Run.loader_parseText h
  | named opener name => exact Run.loader_parseResource h

/-- The new loader gives for each name what its opener gives. -/
theorem answer_enter (o : Origin) (s : Store) (name : String) :
    (o.enter s).answer ⟨s.loaders.size⟩ name = s.readUnder o.opener name := by
  have hget : (o.enter s).loaders.get s.loaders.size = ⟨o.opener, []⟩ := by
    rw [enter, Heap.get_alloc, if_pos rfl]
  rw [Store.answer, hget]
  exact Store.readUnder_congr (s := s) rfl rfl _ _

/-- The other loaders give what they gave. -/
theorem answer_enter_of_lt (o : Origin) {s : Store} {r : LoaderRef} (hr : r.index < s.loaders.size)
    (name : String) : (o.enter s).answer r name = s.answer r name := by
  have hget : (o.enter s).loaders.get r.index = s.loaders.get r.index := by
    rw [enter, Heap.get_alloc, if_neg (Nat.ne_of_lt hr)]
  rw [Store.answer, hget]
  rfl

/-- What a template that was read afresh has, and what reading it added to the store. -/
structure Adds (o : Origin) (s : Store) (t : Template) (s' : Store) : Prop where
  document : o.document s = .ok t.document
  rest : ∃ loaders templates opened,
    s' = { s with loaders := loaders, templates := templates, opened := opened }
  size : s'.loaders.size = s.loaders.size + 1
  loader : t.loader = ⟨s.loaders.size⟩
  answer : ∀ name, s'.answer t.loader name = s.readUnder o.opener name
  others : ∀ r : LoaderRef, r.index < s.loaders.size → ∀ name, s'.answer r name = s.answer r name

theorem adds_of_read {o : Origin} {s s' : Store} {t : Template} (h : o.read s = .ok t s') :
    o.Adds s t s' := by
  have hloader := loader_read h
  obtain ⟨s₁, ⟨⟨_, _, _, hs₁⟩, hlib⟩, hloaders, hgives⟩ := o.gives_read s
  rw [h] at hgives
  generalize hd : o.document s = d at hgives
  cases hgives
  have hanswer : ∀ r name, s'.answer r name = (o.enter s).answer r name := fun r name =>
    congrFun (congrFun (congrArg Library.answer hlib) r) name
  refine ⟨hd, ⟨_, _, _, hs₁⟩, by rw [hloaders, enter, Heap.size_alloc], hloader, fun name => ?_,
    fun r hr name => ?_⟩
  · rw [hanswer, hloader, answer_enter]
  · rw [hanswer, answer_enter_of_lt o hr]

namespace Adds

variable {o : Origin} {s s' : Store} {t : Template}

theorem texts (h : o.Adds s t s') : s'.texts = s.texts := by
  obtain ⟨_, _, _, rfl⟩ := h.rest
  rfl

theorem files (h : o.Adds s t s') : s'.files = s.files := by
  obtain ⟨_, _, _, rfl⟩ := h.rest
  rfl

theorem root (h : o.Adds s t s') (r : RootRef) : s'.root r = s.root r := by
  obtain ⟨_, _, _, rfl⟩ := h.rest
  rfl

/-- With a loader for the template, the store has a loader for every evaluation. -/
theorem grounded (h : o.Adds s t s')
    (hs : ∀ r : RootRef, r.index < s.roots.size → (s.root r).loader.index < s.loaders.size) :
    s'.Grounded := by
  intro r
  rw [h.root, h.size]
  by_cases hr : r.index < s.roots.size
  · exact Nat.lt_succ_of_lt (hs r hr)
  · have hdefault : s.root r = default := by
      simp [Store.root, Heap.get, Array.getElem?_eq_none (Nat.le_of_not_lt hr)]
    rw [hdefault]
    exact Nat.succ_pos _

end Adds

end Origin

end Stencil
