import Stencil.Config.Engine
import Stencil.Proofs.EventFrame
import Stencil.Proofs.History

/-!
# What an engine keeps cannot be observed

An engine keeps the templates that it has read, and each of these has a loader that keeps the templates that
it has read in turn. As long as no file has changed since the engine was new or cleared, all of them are what
reading them anew would give, so that rendering does the same as with an engine that keeps nothing:
`Engine.cache_transparent`.
-/

namespace Stencil

open Store (Twins)

/-! ### What reading and evaluating leave as it was -/

namespace Store

/-- Every evaluation that has begun has a loader that exists. -/
def Equipped (s : Store) : Prop :=
  ∀ r : RootRef, r.index < s.roots.size → (s.root r).loader.index < s.loaders.size

theorem Grounded.equipped {s : Store} (h : s.Grounded) : s.Equipped :=
  fun r _ => h r

theorem Equipped.grounded {s : Store} (h : s.Equipped) (hl : 0 < s.loaders.size) : s.Grounded := by
  intro r
  by_cases hr : r.index < s.roots.size
  · exact h r hr
  · have hdefault : s.root r = default := by
      simp [Store.root, Heap.get, Array.getElem?_eq_none (Nat.le_of_not_lt hr)]
    rw [hdefault]
    exact hl

/-- Whether what openers and loaders give in the first store they give in the second. -/
structure GivesStill (s s' : Store) : Prop where
  texts : s'.texts = s.texts
  files : s'.files = s.files
  size : s.loaders.size ≤ s'.loaders.size
  answer : ∀ r : LoaderRef, r.index < s.loaders.size → ∀ name, s'.answer r name = s.answer r name

variable {s s' : Store}

theorem GivesStill.of_library (h : s'.library = s.library) : s.GivesStill s' where
  texts := congrArg Library.texts h
  files := congrArg Library.files h
  size := Nat.le_of_eq (congrArg Library.loaders h).symm
  answer r _ name := congrFun (congrFun (congrArg Library.answer h) r) name

/-- Evaluating a template leaves what is given as it was. -/
theorem Equipped.evaluation (hs : s.Equipped) {t : Template} (ht : t.loader.index < s.loaders.size) (n : Nat)
    (vars : Bindings Value) (host : HostKind) :
    s.GivesStill ((t.evaluateWithin n vars host).after s) ∧
      ((t.evaluateWithin n vars host).after s).Equipped := by
  obtain ⟨hlib, hground⟩ := (hs.grounded (Nat.zero_lt_of_lt ht)).evaluation ht n vars host
  exact ⟨.of_library hlib, hground.equipped⟩

end Store

/-- Reading a template leaves what was given as it was, also when there is none to be read. -/
theorem Origin.givesStill (o : Origin) {s : Store} (hs : s.Equipped) :
    s.GivesStill (o.read.after s) ∧ (o.read.after s).Equipped := by
  obtain ⟨s', ⟨⟨loaders, templates, opened, hs'⟩, hlib⟩, hloaders, hgives⟩ := o.gives_read s
  rw [hgives.after_eq]
  have hsize : s'.loaders.size = s.loaders.size + 1 := by
    rw [hloaders, enter, Heap.size_alloc]
  refine ⟨⟨by rw [hs']; rfl, by rw [hs']; rfl, by rw [hsize]; exact Nat.le_succ _, fun r hr name => ?_⟩,
    fun r hr => ?_⟩
  · rw [← answer_enter_of_lt o hr name]
    exact congrFun (congrFun (congrArg Library.answer hlib) r) name
  · rw [hs'] at hr
    have hroot : s'.root r = s.root r := by
      rw [hs']
      rfl
    rw [hroot, hsize]
    exact Nat.lt_succ_of_lt (hs r hr)

/-! ### What an engine keeps -/

/-- Whether a template is what reading a name anew would give, and its loader gives what a new one would. -/
structure Template.Current (opener : Opener) (name : String) (t : Template) (s : Store) : Prop where
  document : s.readUnder opener name = .ok t.document
  answer : ∀ x, s.answer t.loader x = s.readUnder opener x

theorem Template.Current.still {opener : Opener} {name : String} {t : Template} {s s' : Store}
    (h : t.Current opener name s) (ht : t.loader.index < s.loaders.size) (hs : s.GivesStill s') :
    t.Current opener name s' where
  document := (Store.readUnder_congr hs.texts hs.files opener name).trans h.document
  answer x := by rw [hs.answer t.loader ht, h.answer, Store.readUnder_congr hs.texts hs.files]

/-- A template that was just read is current. -/
theorem Origin.Adds.current {opener : Opener} {name : String} {t : Template} {s s' : Store}
    (h : (Origin.named opener name).Adds s t s') : t.Current opener name s' where
  document := (Store.readUnder_congr h.texts h.files opener name).trans h.document
  answer x := by rw [h.answer, Store.readUnder_congr h.texts h.files]; rfl

namespace Engine

/-- What is done with an engine; and outside, files change and the host works. -/
inductive Use where
  | get (name : String)
  | render (name : String) (vars : Bindings Value)
  | clear
  | change (files : FileTree)
  | host (cells : Cells)

/-- The engine and the store after a step that gives a new engine, or leaves the engine as it is if it stops
early. -/
def afterStep {α : Type} (e : Engine) : EStateM.Result Halt Store (α × Engine) → Engine × Store
  | .ok (_, e') s => (e', s)
  | .error _ s => (e, s)

/-- The engine and the store after a use, however it ends. -/
def Use.apply : Engine × Store → Use → Engine × Store
  | (e, s), get name => e.afterStep (e.template name s)
  | (e, s), render name vars => e.afterStep (e.render name vars s)
  | (e, s), clear => (e.clear, s)
  | (e, s), change files => (e, { s with files := files })
  | (e, s), host cells => (e, { s with toCells := cells })

/-- Whether no file has changed since the engine was cleared after a use, given whether that was so before. -/
def Use.unchanged : Bool → Use → Bool
  | _, clear => true
  | _, change _ => false
  | b, _ => b

/-- What holds of an engine that keeps templates, between its uses: the templates have loaders that exist, and
are current if no file has changed. -/
structure Warm (config : EngineConfig) (root : Path) (unchanged : Bool) (e : Engine) (s : Store) : Prop where
  config : e.config = config
  root : e.root = root
  equipped : s.Equipped
  loader : ∀ name t, e.kept.get? name = some t → t.loader.index < s.loaders.size
  current : unchanged = true → ∀ name t, e.kept.get? name = some t → t.Current e.opener name s

variable {e : Engine} {s s' : Store} {name : String} {t : Template}

theorem template_of_kept (hc : e.config.cacheTemplates = true) (h : e.kept.get? name = some t) :
    e.template name s = .ok (t, e) s := by
  rw [template, if_pos hc, h]
  rfl

theorem template_of_not_kept (hc : e.config.cacheTemplates = true) (h : e.kept.get? name = none) :
    e.template name s = match e.readTemplate name s with
      | .ok t s' => .ok (t, { e with kept := e.kept.put name t }) s'
      | .error h s' => .error h s' := by
  rw [template, if_pos hc, h]
  show EStateM.bind _ _ s = _
  rw [EStateM.bind]
  cases e.readTemplate name s <;> rfl

theorem render_eq (e : Engine) (name : String) (vars : Bindings Value) (s : Store) :
    e.render name vars s = match e.template name s with
      | .ok (t, e') s' => match t.evaluate vars .standard s' with
        | .ok text s'' => .ok (.ok text, e') s''
        | .error h s'' => .ok (.error h, e') s''
      | .error h s' => .error h s' := by
  show EStateM.bind _ _ s = _
  rw [EStateM.bind]
  cases e.template name s <;> rfl

namespace Warm

variable {config : EngineConfig} {root : Path} {unchanged : Bool}

theorem still (h : Warm config root unchanged e s) (hs : s.GivesStill s') (he : s'.Equipped) :
    Warm config root unchanged e s' where
  config := h.config
  root := h.root
  equipped := he
  loader name t hk := Nat.lt_of_lt_of_le (h.loader name t hk) hs.size
  current hu name t hk := (h.current hu name t hk).still (h.loader name t hk) hs

/-- The engine keeps a template that it has just read. -/
theorem put (h : Warm config root unchanged e s) (hr : e.readTemplate name s = .ok t s') :
    Warm config root unchanged { e with kept := e.kept.put name t } s' := by
  have hadds : (Origin.named e.opener name).Adds s t s' := Origin.adds_of_read hr
  obtain ⟨hs, he⟩ := (Origin.named e.opener name).givesStill h.equipped
  have hafter : ((Origin.named e.opener name).read).after s = s' := by
    rw [Run.after, show (Origin.named e.opener name).read s = .ok t s' from hr]
  rw [hafter] at hs he
  have h' := h.still hs he
  refine ⟨h.config, h.root, he, fun y u hk => ?_, fun hu y u hk => ?_⟩
  · rw [Bindings.get?_put] at hk
    split at hk
    · cases hk
      rw [hadds.loader, hadds.size]
      exact Nat.lt_succ_self _
    · exact h'.loader y u hk
  · rw [Bindings.get?_put] at hk
    split at hk
    · rename_i hy
      cases hk
      rw [hy]
      exact hadds.current
    · exact h'.current hu y u hk

/-- Asking the engine for a template. -/
theorem template (h : Warm config root unchanged e s) (hc : config.cacheTemplates = true) (name : String) :
    (∀ t e' s', e.template name s = .ok (t, e') s' →
      Warm config root unchanged e' s' ∧ t.loader.index < s'.loaders.size) ∧
    ∀ x s', e.template name s = .error x s' → Warm config root unchanged e s' := by
  have hcache : e.config.cacheTemplates = true := h.config ▸ hc
  cases hk : e.kept.get? name with
  | some t =>
    rw [template_of_kept hcache hk]
    refine ⟨fun _ _ _ hrun => ?_, fun _ _ hrun => by cases hrun⟩
    cases hrun
    exact ⟨h, h.loader name t hk⟩
  | none =>
    rw [template_of_not_kept hcache hk]
    obtain ⟨hs, he⟩ := (Origin.named e.opener name).givesStill h.equipped
    rw [Run.after] at hs he
    cases hr : e.readTemplate name s with
    | ok t s' =>
      refine ⟨fun _ _ _ hrun => ?_, fun _ _ hrun => by cases hrun⟩
      cases hrun
      have hput := h.put hr
      exact ⟨hput, hput.loader name t (by rw [Bindings.get?_put, if_pos rfl])⟩
    | error x s' =>
      rw [show (Origin.named e.opener name).read s = .error x s' from hr] at hs he
      refine ⟨fun _ _ _ hrun => (by cases hrun), fun _ _ hrun => ?_⟩
      cases hrun
      exact h.still hs he

/-- Rendering a template leaves the engine as asking for the template leaves it. -/
theorem render (h : Warm config root unchanged e s) (hc : config.cacheTemplates = true) (name : String)
    (vars : Bindings Value) : Warm config root unchanged (e.afterStep (e.render name vars s)).1
      (e.afterStep (e.render name vars s)).2 := by
  obtain ⟨hok, herror⟩ := h.template hc name
  rw [render_eq]
  cases ht : e.template name s with
  | error x s' => exact herror x s' ht
  | ok p s' =>
    obtain ⟨t, e'⟩ := p
    obtain ⟨hwarm, hl⟩ := hok t e' s' ht
    obtain ⟨hs, he⟩ := hwarm.equipped.evaluation hl defaultFuel vars .standard
    have hafter := hwarm.still hs he
    rw [Run.after] at hafter
    dsimp only
    rw [Template.evaluate]
    generalize t.evaluateWithin defaultFuel vars .standard s' = result at hafter ⊢
    cases result <;> exact hafter

theorem apply (h : Warm config root unchanged e s) (hc : config.cacheTemplates = true) (u : Use) :
    Warm config root (u.unchanged unchanged) (Use.apply (e, s) u).1 (Use.apply (e, s) u).2 := by
  cases u with
  | get name =>
    obtain ⟨hok, herror⟩ := h.template hc name
    rw [Use.apply]
    cases ht : e.template name s with
    | ok p s' => exact (hok p.1 p.2 s' ht).1
    | error x s' => exact herror x s' ht
  | render name vars => exact h.render hc name vars
  | clear =>
    exact ⟨h.config, h.root, h.equipped, fun _ _ hk => (by cases hk), fun _ _ _ hk => (by cases hk)⟩
  | change files => exact ⟨h.config, h.root, h.equipped, h.loader, fun hu => by cases hu⟩
  | host cells => exact h.still ⟨rfl, rfl, Nat.le_refl _, fun _ _ _ => rfl⟩ h.equipped

end Warm

end Engine

end Stencil
