import Stencil.Proofs.Script

/-!
# What loading gives

What a loader gives for a name: the document that it has read already, or else what its opener and the
reader make of the name. Reading a template changes nothing of this, for no loader and no name, so that
whether a name has been loaded before can be told only by counting how often it is opened.
-/

namespace Stencil

/-- The stop of reading as the stop of the evaluation that reads. -/
def ParseFailure.halt : ParseFailure → Halt
  | error e => .failure (.parse e)
  | exhausted => .exhausted

/-- What loading gives: the texts and files, the number of loaders, and for each loader the document of
each name, or why there is none. -/
structure Library where
  texts : Bindings String
  files : FileTree
  loaders : Nat
  answer : LoaderRef → String → Except Halt Document

namespace Store

/-- The text that an opener finds under a name. -/
def textUnder (s : Store) : Opener → String → Except Failure String
  | .noNames, name => .error (.resource (.noNamedResources name))
  | .texts, name =>
    match s.texts.get? name with
    | some text => .ok text
    | none => .error (.resource (.unknownName name))
  | .files root encoding, name => (readFile s.files root encoding name).mapError .resource

/-- What an opener gives for a name that was not loaded before. -/
def readUnder (s : Store) (opener : Opener) (name : String) : Except Halt Document :=
  match s.textUnder opener name with
  | .ok text => (Document.read (some name) text).mapError ParseFailure.halt
  | .error f => .error (.failure f)

/-- What an opener gives depends on the texts and files only. -/
theorem readUnder_congr {s s' : Store} (ht : s'.texts = s.texts) (hf : s'.files = s.files)
    (opener : Opener) (name : String) : s'.readUnder opener name = s.readUnder opener name := by
  cases opener <;> simp only [readUnder, textUnder, ht, hf]

/-- What a loader gives for a name. -/
def answer (s : Store) (r : LoaderRef) (name : String) : Except Halt Document :=
  match (s.loaders.get r.index).cache.get? name with
  | some t => .ok t.document
  | none => s.readUnder (s.loaders.get r.index).opener name

/-- What loading gives in a store. -/
def library (s : Store) : Library :=
  ⟨s.texts, s.files, s.loaders.size, s.answer⟩

/-- Whether a store is what another one becomes by reading templates: the loaders, the count of templates
and that of openings may differ, but not what loading gives. -/
def Reads (s s' : Store) : Prop :=
  (∃ loaders templates opened,
    s' = { s with loaders := loaders, templates := templates, opened := opened }) ∧
  s'.library = s.library

variable {s s' s'' : Store}

theorem Reads.refl (s : Store) : s.Reads s :=
  ⟨⟨s.loaders, s.templates, s.opened, rfl⟩, rfl⟩

theorem Reads.trans (h : s.Reads s') (h' : s'.Reads s'') : s.Reads s'' := by
  obtain ⟨⟨_, _, _, rfl⟩, hl⟩ := h
  obtain ⟨⟨l, n, o, rfl⟩, hl'⟩ := h'
  exact ⟨⟨l, n, o, rfl⟩, hl'.trans hl⟩

theorem Reads.toCells (h : s.Reads s') : s'.toCells = s.toCells := by
  obtain ⟨⟨_, _, _, rfl⟩, -⟩ := h
  rfl

theorem Reads.blocks (h : s.Reads s') : s'.blocks = s.blocks := by
  obtain ⟨⟨_, _, _, rfl⟩, -⟩ := h
  rfl

/-- A loader keeps a template under a name. -/
def keep (s : Store) (r : LoaderRef) (name : String) (t : Template) : Store :=
  let l := s.loaders.get r.index
  { s with loaders := s.loaders.set r.index { l with cache := l.cache.put name t } }

/-- Keeping under a name what the loader gives for it changes nothing of what loading gives. -/
theorem library_keep {r : LoaderRef} {name : String} {t : Template}
    (h : s.answer r name = .ok t.document) : (s.keep r name t).library = s.library := by
  have hanswer : ∀ q x, (s.keep r name t).answer q x = s.answer q x := by
    intro q x
    by_cases hr : r.index < s.loaders.size
    · rw [answer, show (s.keep r name t).loaders.get q.index = _ from Heap.get_set hr _ _]
      by_cases hq : q.index = r.index
      · rw [if_pos hq, Bindings.get?_put]
        by_cases hx : x = name
        · rw [if_pos hx, hx, answer, hq]
          exact h.symm
        · rw [if_neg hx, answer, hq]
          rfl
      · rw [if_neg hq]
        rfl
    · rw [answer, show (s.keep r name t).loaders = s.loaders from
        Heap.set_of_ge _ (Nat.le_of_not_lt hr) _]
      rfl
  simp only [library, Library.mk.injEq]
  exact ⟨rfl, rfl, Heap.size_set .., funext fun q => funext (hanswer q)⟩

end Store

namespace Run

/-- Whether a step that reads a template ends with a document, or with the stop that was in its way. -/
inductive Gives : Except Halt Document → Store → EStateM.Result Halt Store Template → Prop
  | ok {t : Template} {s : Store} : Gives (.ok t.document) s (.ok t s)
  | error {h : Halt} {s : Store} : Gives (.error h) s (.error h s)

variable (s : Store)

theorem openText_eq (opener : Opener) (name : String) :
    ∃ opened, openText opener name s =
      match s.textUnder opener name with
      | .ok text => .ok text { s with opened := opened }
      | .error f => .error (.failure f) { s with opened := opened } := by
  cases opener with
  | noNames => exact ⟨s.opened, rfl⟩
  | texts =>
    refine ⟨s.opened.put name ((s.opened.get? name).getD 0 + 1), ?_⟩
    show (match s.texts.get? name with
      | some text => (return text : Run String)
      | none => fail (.resource (.unknownName name))) _ = _
    rw [Store.textUnder]
    cases s.texts.get? name <;> rfl
  | files root encoding =>
    refine ⟨s.opened, ?_⟩
    show ofResource (readFile s.files root encoding name) s = _
    rw [Store.textUnder]
    cases readFile s.files root encoding name <;> rfl

theorem gives_parseText (r : LoaderRef) (resource : Option String) (text : String) :
    ∃ s', s.Reads s' ∧ s'.loaders = s.loaders ∧
      Gives ((Document.read resource text).mapError ParseFailure.halt) s'
        (parseText r resource text s) := by
  rw [parseText]
  cases Document.read resource text with
  | ok d =>
    exact ⟨{ s with templates := s.templates + 1 }, ⟨⟨_, _, _, rfl⟩, rfl⟩, rfl,
      Gives.ok (t := ⟨s.templates, d, r⟩)⟩
  | error e => cases e <;> exact ⟨s, .refl s, rfl, .error⟩

theorem gives_parseResource (r : LoaderRef) (name : String) :
    ∃ s', s.Reads s' ∧ s'.loaders = s.loaders ∧
      Gives (s.readUnder (s.loaders.get r.index).opener name) s' (parseResource r name s) := by
  obtain ⟨opened, hopen⟩ := openText_eq s (s.loaders.get r.index).opener name
  have h₁ : s.Reads { s with opened := opened } := ⟨⟨_, _, _, rfl⟩, rfl⟩
  rw [Store.readUnder]
  cases ht : s.textUnder (s.loaders.get r.index).opener name with
  | error f =>
    rw [ht] at hopen
    have hrun : parseResource r name s = .error (.failure f) { s with opened := opened } :=
      bind_eq_error.2 (.inr ⟨_, _, rfl, bind_eq_error.2 (.inl hopen)⟩)
    rw [hrun]
    exact ⟨_, h₁, rfl, .error⟩
  | ok text =>
    rw [ht] at hopen
    obtain ⟨s₂, h₂, hl₂, hparse⟩ := gives_parseText { s with opened := opened } r (some name) text
    have hrun : parseResource r name s = parseText r (some name) text { s with opened := opened } :=
      (bind_ok rfl).trans (bind_ok hopen)
    rw [hrun]
    exact ⟨s₂, h₁.trans h₂, hl₂, hparse⟩

theorem loader_parseText {r : LoaderRef} {resource : Option String} {text : String} {s s' : Store}
    {t : Template} (h : parseText r resource text s = .ok t s') : t.loader = r := by
  rw [parseText] at h
  cases hd : Document.read resource text with
  | ok d =>
    rw [hd] at h
    cases h
    rfl
  | error e =>
    rw [hd] at h
    cases e <;> cases h

theorem loader_parseResource {r : LoaderRef} {name : String} {s s' : Store} {t : Template}
    (h : parseResource r name s = .ok t s') : t.loader = r := by
  obtain ⟨opened, hopen⟩ := openText_eq s (s.loaders.get r.index).opener name
  have hrun : parseResource r name s =
      (openText (s.loaders.get r.index).opener name >>= parseText r (some name)) s := rfl
  rw [hrun] at h
  cases ht : s.textUnder (s.loaders.get r.index).opener name with
  | ok text =>
    rw [ht] at hopen
    rw [bind_ok hopen] at h
    exact loader_parseText h
  | error f =>
    rw [ht] at hopen
    rw [bind_eq_error.2 (.inl hopen)] at h
    cases h

/-- Loading ends with what the loader gives for the name, and changes nothing of what loading gives. -/
theorem gives_load (r : LoaderRef) (name : String) :
    ∃ s', s.Reads s' ∧ Gives (s.answer r name) s' (load r name s) := by
  rw [Store.answer]
  cases hc : (s.loaders.get r.index).cache.get? name with
  | some t =>
    have hrun : load r name s = .ok t s := by
      show (match (s.loaders.get r.index).cache.get? name with
        | some t => (return t : Run Template)
        | none => _) s = _
      rw [hc]
      rfl
    rw [hrun]
    exact ⟨s, .refl s, .ok⟩
  | none =>
    obtain ⟨s₁, h₁, hl₁, hparse⟩ := gives_parseResource s r name
    have hrun : load r name s =
        (parseResource r name >>= fun t => do
          let l ← loader r
          modify fun s =>
            { s with loaders := s.loaders.set r.index { l with cache := l.cache.put name t } }
          return t) s := by
      show (match (s.loaders.get r.index).cache.get? name with
        | some t => (return t : Run Template)
        | none => _) s = _
      rw [hc]
    have hlib : s₁.answer r name = s.answer r name :=
      congrFun (congrFun (congrArg Library.answer h₁.2) r) name
    have hanswer : s.answer r name = s.readUnder (s.loaders.get r.index).opener name := by
      rw [Store.answer, hc]
    rw [hanswer] at hlib
    rw [hrun]
    show ∃ s', s.Reads s' ∧ Gives (s.readUnder (s.loaders.get r.index).opener name) s' _
    generalize hd : s.readUnder (s.loaders.get r.index).opener name = d at hparse
    generalize hp : parseResource r name s = p at hparse
    cases hparse with
    | error => exact ⟨s₁, h₁, by rw [bind_eq_error.2 (.inl hp)]; exact .error⟩
    | @ok t =>
      refine ⟨s₁.keep r name t, h₁.trans ⟨⟨_, _, _, rfl⟩, Store.library_keep (hlib.trans hd)⟩, ?_⟩
      rw [bind_ok hp]
      exact .ok

end Run

end Stencil
