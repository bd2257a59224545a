import Mathlib
import Stencil.Proofs.Break
import Stencil.Proofs.CallByName
import Stencil.Proofs.History
import Stencil.Proofs.Hosts
import Stencil.Proofs.ReadLiteral

/-!
# The ways of rendering a text agree

A text can be evaluated as a template of its own, rendered by a `#parse` of its name, rendered by an
`#evaluate`, and written as a literal that is assigned and written out. The trees differ in places only, and
the runs go side by side from where the macros of the text are known.
-/

namespace Stencil

open Store (Twins)

/-- Reads a text of a resource as a template, with a new loader for the templates that it names. -/
def Template.ofResource (opener : Opener) (resource : Option String) (text : String) : Run Template := do
  Run.parseText (← Run.newLoader opener) resource text

/-- Reads a text of a resource as a template of its own and evaluates it. -/
def renderText (opener : Opener) (resource : Option String) (text : String) (n : Nat)
    (vars : Bindings Value) : Run String := do
  let t ← Template.ofResource opener resource text
  t.evaluateWithin n vars .standard

/-- Whether an evaluation of a template is ended by a break that reaches its root. -/
def Template.EndsByBreak (t : Template) (n : Nat) (vars : Bindings Value) (host : HostKind) (s : Store) :
    Prop :=
  ∃ p loopOnly s', (Deeper.within n).render (s.enterRoot (t.frame vars host)).1 t.document.nodes
    { (s.enterRoot (t.frame vars host)).2 with written := "" } = .error (.leave p loopOnly) s'

/-! ### Where the runs begin -/

/-- The store in which a template was read with a new loader. -/
def Store.opening (s : Store) (opener : Opener) : Store :=
  { s with loaders := s.loaders.alloc ⟨opener, []⟩, templates := s.templates + 1 }

/-- The template that was read in a store with a new loader. -/
def Store.newTemplate (s : Store) (d : Document) : Template :=
  ⟨s.templates, d, ⟨s.loaders.size⟩⟩

section

variable {s s₁ : Store} {opener : Opener} {resource : Option String} {text : String} {t : Template}

theorem Template.ofResource_eq {d : Document} (h : Document.read resource text = .ok d) :
    ofResource opener resource text s = .ok (s.newTemplate d) (s.opening opener) := by
  have hrun : ofResource opener resource text s =
      Run.parseText ⟨s.loaders.size⟩ resource text { s with loaders := s.loaders.alloc ⟨opener, []⟩ } := rfl
  rw [hrun, Run.parseText, h]
  rfl

theorem Template.of_ofResource (h : ofResource opener resource text s = .ok t s₁) :
    Document.read resource text = .ok t.document ∧ t = s.newTemplate t.document ∧
      s₁ = s.opening opener := by
  cases hd : Document.read resource text with
  | ok d =>
    rw [ofResource_eq hd] at h
    cases h
    exact ⟨rfl, rfl, rfl⟩
  | error e =>
    have hrun : ofResource opener resource text s =
        Run.parseText ⟨s.loaders.size⟩ resource text { s with loaders := s.loaders.alloc ⟨opener, []⟩ } := rfl
    rw [hrun, Run.parseText, hd] at h
    cases e <;> cases h

end

/-- The store in which an evaluation of a template begins to render. -/
def Store.start (s : Store) (vars : Bindings Value) (macros : List MacroDef) (l : LoaderRef) : Store :=
  { (s.enterRoot ⟨vars, macros, .standard, l⟩).2 with written := "" }

/-- The scope in which an evaluation of a template begins to render. -/
def Store.startScope (s : Store) : Scope :=
  ⟨[], ⟨s.roots.size⟩⟩

/-- A library beside itself, for trees that may differ in places. -/
def Pairing.places (l : Library) : Pairing where
  strict := false
  left := l
  right := l
  paired := Eq
  alike h _ := h ▸ .refl _

theorem Heap.set_alloc {α : Type} (h : Heap α) (a b : α) : (h.alloc a).set h.size b = h.alloc b := by
  simp [Heap.set, Heap.alloc, Heap.size, Array.setIfInBounds, Array.set_push]

namespace Store

/-- The frame of an evaluation that begins. -/
theorem root_start (s : Store) (vars : Bindings Value) (macros : List MacroDef) (l : LoaderRef) :
    (s.start vars macros l).root s.startScope.root = ⟨vars, macros, .standard, l⟩ := by
  show (s.roots.alloc _).get s.roots.size = _
  rw [Heap.get_alloc, if_pos rfl]

/-- An evaluation that begins with the macros of a document goes beside one that begins without macros, has
read the document under another name, and then came to know the macros. -/
theorem Twins.included {s s₁ : Store} {vars : Bindings Value} {l : LoaderRef} {d d' : Document}
    (hd : LikeDocument false d d') (hs : (s.start vars [] l).Reads s₁) :
    Twins (.places s.library) (s.start vars d.macros l) (s₁.addMacros s.startScope.root d'.macros) := by
  have hbegin : Twins (.places s.library) (s.start vars [] l) s₁ :=
    (Twins.refl rfl rfl fun _ => rfl).reads (.refl _) hs
  have hroot : s₁.root s.startScope.root = ⟨vars, [], .standard, l⟩ := by
    obtain ⟨⟨_, _, _, rfl⟩, -⟩ := hs
    exact root_start s vars [] l
  have hmacros : ∀ name, Option.Rel (LikeMacro false) (findMacro? d.macros name)
      (findMacro? (d'.macros.foldl addMacro []) name) := fun name => by
    rw [findMacro_foldl_addMacro]
    exact likeMacro_find hd.macros name
  have hframe : RootFrame.Like (.places s.library) ⟨vars, d.macros, .standard, l⟩
      ⟨vars, d'.macros.foldl addMacro [], .standard, l⟩ := ⟨rfl, rfl, hmacros, rfl⟩
  have h := hbegin.setRoot (r := s.startScope.root) hframe
  have hleft : (s.start vars [] l).setRoot s.startScope.root ⟨vars, d.macros, .standard, l⟩ =
      s.start vars d.macros l := by
    rw [Store.setRoot, startScope, start, start, Store.enterRoot, Store.enterRoot, Heap.set_alloc]
  rw [hleft] at h
  rw [Store.addMacros, hroot]
  exact h

end Store

/-! ### How the runs end -/

/-- Whether rendering ends, normally or with a break that a template stops. -/
def Run.Finishes (r : EStateM.Result Halt Store Unit) (s : Store) : Prop :=
  r = .ok () s ∨ ∃ p, r = .error (.leave p false) s

namespace Run

variable {x : Run Unit} {s s' : Store}

theorem Finishes.endBreaks (h : Finishes (x s) s') : endBreaks x s = .ok () s' := by
  rw [Run.endBreaks]
  obtain h | ⟨p, h⟩ := h
  · rw [h]
  · rw [h]
    rfl

theorem Finishes.catchLeave (h : Finishes (x s) s') :
    catchLeave (fun loopOnly => !loopOnly) x s = .ok () s' := by
  rw [Run.catchLeave]
  obtain h | ⟨p, h⟩ := h
  · rw [h]
  · rw [h]
    rfl

/-- Rendering that goes beside one that ends ends too, and with the same text. -/
theorem Finishes.agree {π : Pairing} {r r' : EStateM.Result Halt Store Unit} (hr : Finishes r s)
    (h : Agree π Eq r r') : ∃ s', Finishes r' s' ∧ s'.written = s.written := by
  obtain rfl | ⟨p, rfl⟩ := hr
  · cases h with
    | ok _ h => exact ⟨_, .inl rfl, h.written.symm⟩
  · cases h with
    | error he h =>
      cases he
      exact ⟨_, .inr ⟨_, rfl⟩, h.written.symm⟩

end Run

/-- An evaluation that ends with a text has rendered it. -/
theorem Template.finishes_of_evaluateWithin {t : Template} {n : Nat} {vars : Bindings Value}
    {host : HostKind} {s s' : Store} {o : String} (h : t.evaluateWithin n vars host s = .ok o s') :
    ∃ s₁, s₁.written = o ∧ Run.Finishes ((Deeper.within n).render (s.enterRoot (t.frame vars host)).1
      t.document.nodes { (s.enterRoot (t.frame vars host)).2 with written := "" }) s₁ := by
  rw [evaluateWithin_eq, Run.capture, Run.endBreaks] at h
  generalize (Deeper.within n).render _ _ _ = r at h ⊢
  cases r with
  | ok _ s₁ =>
    cases h
    exact ⟨s₁, rfl, .inl rfl⟩
  | error e s₁ =>
    cases e with
    | leave p loopOnly =>
      cases loopOnly with
      | true => cases h
      | false =>
        cases h
        exact ⟨s₁, rfl, .inr ⟨p, rfl⟩⟩
    | failure f => cases h
    | exhausted => cases h

/-! ### Directives that render the text -/

section Directives

variable {s s₁ s' : Store} {opener : Opener} {vars : Bindings Value} {n : Nat} {d e : Document} {node : Node}
  {t : Template}

/-- A template that is one directive which renders the text gives what the text gives. -/
theorem evaluates_included {l : LoaderRef} (hnodes : e.nodes = [node]) (hmacros : e.macros = [])
    (hfinish : Run.Finishes ((Deeper.within n).render s.startScope d.nodes (s.start vars d.macros l)) s')
    (hdiscreet : ∀ k, n = k + 1 → (renderNodes s.startScope d.nodes).Discreet k (s.start vars d.macros l))
    (hincludes : Includes n s.startScope node (s.start vars [] l) t s₁)
    (hreads : (s.start vars [] l).Reads s₁) (hlike : LikeDocument false d t.document) (id : Nat) :
    ∃ s'', Template.evaluateWithin (n + 1) ⟨id, e, l⟩ vars .standard s = .ok s'.written s'' := by
  have htwins := Twins.included hlike hreads
  have hagree := Run.agree_render htwins fun k hk =>
    hlike.nodes.script.agree (readsAlike false) k (.inr (hdiscreet k hk)) htwins
  obtain ⟨s₂, hfinish', hwritten⟩ := hfinish.agree hagree
  have hrender : (Deeper.within (n + 1)).render s.startScope e.nodes (s.start vars [] l) = .ok () s₂ := by
    rw [hnodes]
    have hnode : (renderNode s.startScope node).run (Deeper.within n) (s.start vars [] l) = .ok () s₂ := by
      rw [hincludes.renderNode_eq]
      exact hfinish'.catchLeave
    rw [Deeper.within_render_succ, renderNodes, Script.run_bind, Run.bind_ok hnode]
    rfl
  rw [Template.evaluateWithin_eq, Template.frame, Template.macros, hmacros]
  have hend : Run.Finishes ((Deeper.within (n + 1)).render s.startScope e.nodes (s.start vars [] l)) s₂ :=
    .inl hrender
  rw [← hwritten]
  exact ⟨_, Run.capture_of_ok hend.endBreaks⟩

/-- A variable is read when an evaluation begins. -/
theorem run_variable {x : String} {v : Value} {l : LoaderRef} {macros : List MacroDef}
    (hx : vars.get? x = some v) (deeper : Deeper) (p : Place) :
    (evalExpr s.startScope (.reference p x false []) false).run deeper (s.start vars macros l) =
      .ok v (s.start vars macros l) := by
  have hlookup : (s.start vars macros l).lookup s.startScope x = .stored (some v) := by
    show Binding.stored (((s.start vars macros l).root s.startScope.root).vars.get? x) = _
    rw [Store.root_start, hx]
  exact run_reference (b := none) hlookup deeper p false

/-- A directive that parses the resource that a variable names renders its document. -/
theorem includes_parse {name : String} (hx : vars.get? "n" = some (.str name))
    (hread : s.readUnder opener name = .ok d) (n : Nat) (p q : Place) :
    ∃ t s₁, Includes n (s.opening opener).startScope (.parse p (.reference q "n" false []))
        ((s.opening opener).start vars [] ⟨s.loaders.size⟩) t s₁ ∧
      ((s.opening opener).start vars [] ⟨s.loaders.size⟩).Reads s₁ ∧ t.document = d := by
  have hanswer : ((s.opening opener).start vars [] ⟨s.loaders.size⟩).answer ⟨s.loaders.size⟩ name = .ok d := by
    have hget : ((s.opening opener).start vars [] ⟨s.loaders.size⟩).loaders.get s.loaders.size =
        ⟨opener, []⟩ := by
      show (s.loaders.alloc ⟨opener, []⟩).get s.loaders.size = _
      rw [Heap.get_alloc, if_pos rfl]
    rw [Store.answer, hget]
    exact (Store.readUnder_congr (s := s) rfl rfl _ _).trans hread
  obtain ⟨s₁, hreads, hgives⟩ :=
    Run.gives_load ((s.opening opener).start vars [] ⟨s.loaders.size⟩) ⟨s.loaders.size⟩ name
  rw [hanswer] at hgives
  generalize hload : Run.load _ _ _ = r at hgives
  cases hgives with
  | @ok t =>
    refine ⟨t, s₁, .parse (run_variable hx _ _) ?_, hreads, rfl⟩
    have hloader : Run.loaderOf (s.opening opener).startScope
        ((s.opening opener).start vars [] ⟨s.loaders.size⟩) =
          .ok ⟨s.loaders.size⟩ ((s.opening opener).start vars [] ⟨s.loaders.size⟩) :=
      congrArg (EStateM.Result.ok · _) (congrArg RootFrame.loader (Store.root_start _ _ _ _))
    rw [Run.loadAt, Run.mapFailure, Run.bind_ok hloader, hload]

/-- A directive that evaluates the text that a variable holds renders the document of the text. -/
theorem includes_evaluate {text : String} (hx : vars.get? "v" = some (.str text)) (n : Nat) (p q : Place)
    (l : LoaderRef) (hread : Document.read (some ("#evaluate " ++ p.text)) text = .ok d) :
    ∃ t s₁, Includes n s.startScope (.evaluate p (.reference q "v" false [])) (s.start vars [] l) t s₁ ∧
      (s.start vars [] l).Reads s₁ ∧ t.document = d := by
  obtain ⟨s₁, hreads, -, hgives⟩ :=
    Run.gives_parseText (s.start vars [] l) l (some ("#evaluate " ++ p.text)) text
  rw [hread] at hgives
  generalize hparse : Run.parseText _ _ _ _ = r at hgives
  cases hgives with
  | @ok t =>
    refine ⟨t, s₁, .evaluate (run_variable hx _ _) ?_, hreads, rfl⟩
    have hloader : Run.loaderOf s.startScope (s.start vars [] l) = .ok l (s.start vars [] l) :=
      congrArg (EStateM.Result.ok · _) (congrArg RootFrame.loader (Store.root_start _ _ _ _))
    rw [Run.parseAt, Run.mapFailure, Run.bind_ok hloader, hparse]

end Directives

/-! ### The text as a literal -/

section Literal

variable {s s₁ t : Store} {vars : Bindings Value} {n : Nat} {d e : Document} {l : LoaderRef}

/-- A store in which an evaluation with the standard host is under way. -/
def Store.Renders (t : Store) (r : RootRef) : Prop :=
  r.index < t.roots.size ∧ (t.root r).host = .standard

/-- An evaluation is still under way, with its host, after rendering. -/
theorem Store.renders_of_run {nodes : List Node}
    (h : (renderNodes s.startScope nodes).run (Deeper.within n) (s.start vars [] l) = .ok () t) :
    t.Renders s.startScope.root := by
  have hhosts := Script.hosts_after n (renderNodes s.startScope nodes) (s.start vars [] l)
  rw [Run.after, h] at hhosts
  have hsize : t.roots.size = (s.start vars [] l).roots.size := Store.size_roots_of_hosts hhosts
  refine ⟨?_, ?_⟩
  · rw [hsize]
    show s.roots.size < (s.roots.alloc _).size
    rw [Heap.size_alloc]
    exact Nat.lt_succ_self _
  · rw [Store.host_of_hosts hhosts, Store.root_start]

/-- Writing out a variable that holds a text writes the text. -/
theorem run_output_text {scope : Scope} {x text : String}
    (hlookup : t.lookup scope x = .stored (some (.str text))) (hhost : (t.root scope.root).host = .standard)
    (deeper : Deeper) (q : Place) :
    (renderNode scope (.output (.reference q x false []))).run deeper t =
      .ok () { t with written := t.written ++ text } := by
  have hread := run_reference (b := none) hlookup deeper q false
  have hask : Act.host.run deeper.fuel scope t = .ok .standard t :=
    congrArg (EStateM.Result.ok · _) hhost
  have htext : (hostText q (.str text) : Script scope String).run deeper t = .ok text t :=
    (Run.bind_ok hask).trans rfl
  rw [renderNode, Script.run_bind, Run.bind_ok hread]
  exact (Run.bind_ok htext).trans rfl

/-- A template that assigns the text as a literal and writes the variable out gives what the text gives, if
that ends without a break. -/
theorem evaluates_assigned {p q : Place} {ns : List Node}
    (hnodes : e.nodes = [.assign "r" (.text p .double ns), .output (.reference q "r" false [])])
    (hmacros : e.macros = []) (hlike : LikeNodes false d.nodes ns)
    (hrun : (renderNodes s.startScope d.nodes).run (Deeper.within n) (s.start vars [] l) = .ok () s₁)
    (hdiscreet : (renderNodes s.startScope d.nodes).Discreet n (s.start vars [] l)) (id : Nat) :
    ∃ s₂, Template.evaluateWithin (n + 1) ⟨id, e, l⟩ vars .standard s = .ok s₁.written s₂ := by
  have htwins : Twins (.places s.library) (s.start vars [] l) (s.start vars [] l) :=
    .refl rfl rfl fun _ => rfl
  have hagree := hlike.script.agree (readsAlike false) n (.inr hdiscreet) htwins
  rw [hrun] at hagree
  generalize hr : (renderNodes s.startScope ns).run (Deeper.within n) (s.start vars [] l) = r at hagree
  cases hagree with
  | @ok _ u _ t₁ _ h =>
    obtain ⟨hroot, hhost⟩ := Store.renders_of_run (t := t₁) hr
    let t₂ := ({ t₁ with written := "" }.assign s.startScope "r" (.str t₁.written)).2
    have hliteral : (evalExpr s.startScope (.text p .double ns) false).run (Deeper.within n)
        (s.start vars [] l) = .ok (.str t₁.written) { t₁ with written := "" } := by
      have hcapture : Run.capture ((renderNodes s.startScope ns).run (Deeper.within n)) (s.start vars [] l) =
          .ok t₁.written { t₁ with written := "" } := Run.capture_of_ok hr
      rw [evalExpr]
      exact (Run.bind_ok hcapture).trans rfl
    have hassign : (renderNode s.startScope (.assign "r" (.text p .double ns))).run (Deeper.within n)
        (s.start vars [] l) = .ok () t₂ := by
      rw [renderNode, Script.run_bind, Run.bind_ok hliteral]
      rfl
    have hlookup : t₂.lookup s.startScope "r" = .stored (some (.str t₁.written)) :=
      Store.lookup_assign_of_subset _ "r" (.str t₁.written) s.startScope hroot rfl fun _ hc => hc
    have houtput := run_output_text hlookup
      ((Store.host_of_hosts (Store.hosts_assign _ s.startScope "r" (.str t₁.written)) _).trans hhost)
      (Deeper.within n) q
    let t₃ : Store := { t₂ with written := t₂.written ++ t₁.written }
    have hrender : (Deeper.within (n + 1)).render s.startScope e.nodes (s.start vars [] l) = .ok () t₃ := by
      rw [hnodes, Deeper.within_render_succ, renderNodes, Script.run_bind, Run.bind_ok hassign, renderNodes,
        Script.run_bind, Run.bind_ok houtput]
      rfl
    have hend : Run.Finishes ((Deeper.within (n + 1)).render s.startScope e.nodes (s.start vars [] l)) t₃ :=
      .inl hrender
    have hwritten : t₃.written = s₁.written := by
      rw [h.written]
      exact String.empty_append
    rw [Template.evaluateWithin_eq, Template.frame, Template.macros, hmacros, ← hwritten]
    have hcapture : Run.capture (Run.endBreaks ((Deeper.within (n + 1)).render s.startScope e.nodes))
        (s.enterRoot ⟨vars, [], .standard, l⟩).2 = .ok t₃.written _ := Run.capture_of_ok hend.endBreaks
    exact ⟨_, hcapture⟩

end Literal

/-! ### All ways together -/

theorem Document.read_renamed {r : Option String} {text : String} {d : Document} (h : read r text = .ok d)
    (r' : Option String) : ∃ d', read r' text = .ok d' ∧ LikeDocument false d d' := by
  have hread := likeRead_read r r' text
  rw [h] at hread
  generalize read r' text = x at hread
  cases hread with
  | ok hd => exact ⟨_, rfl, hd⟩

/-- The template that renders the resource of a name. -/
def parseText : String := "#parse($n)"

/-- The template that renders a text. -/
def evaluateText : String := "#evaluate($v)"

theorem read_parseText (r : Option String) : Document.read r parseText =
    .ok ⟨⟨r, 1⟩, [.parse ⟨r, 1⟩ (.reference ⟨r, 1⟩ "n" false [])], []⟩ := by
  cbv

theorem read_evaluateText (r : Option String) : Document.read r evaluateText =
    .ok ⟨⟨r, 1⟩, [.evaluate ⟨r, 1⟩ (.reference ⟨r, 1⟩ "v" false [])], []⟩ := by
  cbv

/-- All ways of rendering a text agree. If a text that is evaluated as a template of its own gives an output,
so do the template that parses a resource with this text, the one that evaluates the text, and, for a text
without double quotes, backslashes and macros which no break ends, the one that assigns it as a literal and
writes the variable out. The source text of a null operand may only be taken where it shows all of the
operand. -/
theorem renderings_agree {s s₁ s' : Store} {opener : Opener} {resource : Option String} {text o : String}
    {n : Nat} {vars : Bindings Value} {t : Template}
    (hparse : Template.ofResource opener resource text s = .ok t s₁)
    (heval : t.evaluateWithin n vars .standard s₁ = .ok o s')
    (hdiscreet : t.DiscreetWithin n vars .standard s₁) (outer : Option String) :
    (∀ name, vars.get? "n" = some (.str name) → s.textUnder opener name = .ok text →
      ∃ s'', renderText opener outer parseText (n + 1) vars s = .ok o s'') ∧
    (vars.get? "v" = some (.str text) →
      ∃ s'', renderText opener outer evaluateText (n + 1) vars s = .ok o s'') ∧
    ('"' ∉ text.toList → '\\' ∉ text.toList → t.macros = [] → ¬ t.EndsByBreak n vars .standard s₁ →
      ∃ s'', renderText opener outer (assignedText text) n vars s = .ok o s'') := by
  obtain ⟨hread, ht, rfl⟩ := Template.of_ofResource hparse
  generalize t.document = d at hread ht
  subst ht
  obtain ⟨s₂, rfl, hfinish⟩ := Template.finishes_of_evaluateWithin heval
  refine ⟨fun name hname htext => ?_, fun htext => ?_, fun hquote hslash hmacros hbreak => ?_⟩
  · obtain ⟨d', hread', hlike⟩ := Document.read_renamed hread (some name)
    have hunder : s.readUnder opener name = .ok d' := by
      rw [Store.readUnder, htext]
      exact congrArg (Except.mapError ParseFailure.halt) hread'
    obtain ⟨t', s₃, hincludes, hreads, rfl⟩ := includes_parse hname hunder n ⟨outer, 1⟩ ⟨outer, 1⟩
    rw [renderText, Run.bind_ok (Template.ofResource_eq (read_parseText outer))]
    exact evaluates_included rfl rfl hfinish hdiscreet hincludes hreads hlike _
  · obtain ⟨d', hread', hlike⟩ := Document.read_renamed hread (some ("#evaluate " ++ Place.text ⟨outer, 1⟩))
    obtain ⟨t', s₃, hincludes, hreads, rfl⟩ := includes_evaluate htext n ⟨outer, 1⟩ ⟨outer, 1⟩ _ hread'
    rw [renderText, Run.bind_ok (Template.ofResource_eq (read_evaluateText outer))]
    exact evaluates_included rfl rfl hfinish hdiscreet hincludes hreads hlike _
  · obtain ⟨e, hread', hnone, p, q, ns, hnodes, hlike⟩ := read_assigned hquote hslash hread outer
    rw [renderText, Run.bind_ok (Template.ofResource_eq hread')]
    have hrun := hfinish.resolve_right (by
      rintro ⟨p, hp⟩
      exact hbreak ⟨p, false, s₂, hp⟩)
    have hnil : d.macros = [] := hmacros
    cases n with
    | zero => cases hrun
    | succ k =>
      have hdiscreet := hdiscreet k rfl
      rw [Template.frame, Template.macros, Store.newTemplate, hnil] at hrun hdiscreet
      exact evaluates_assigned hnodes hnone hlike hrun hdiscreet _

/-- Text with a reference, in all four ways. -/
theorem renderings_agree_with_reference :
    let text := "a$x"
    let vars : Bindings Value := [("n", .str "t"), ("v", .str text), ("x", .str "b")]
    let s : Store := { texts := [("t", text)] }
    (∃ s', renderText .texts none text 1 vars s = .ok "ab" s') ∧
      (∃ s', renderText .texts none parseText 2 vars s = .ok "ab" s') ∧
      (∃ s', renderText .texts none evaluateText 2 vars s = .ok "ab" s') ∧
      ∃ s', renderText .texts none (assignedText text) 1 vars s = .ok "ab" s' := by
  intro text vars s
  let d : Document := ⟨⟨none, 1⟩, [.text ⟨none, 1⟩ "a", .output (.reference ⟨none, 1⟩ "x" false [])], []⟩
  have hread : Document.read none text = .ok d := by cbv
  have hparse : Template.ofResource .texts none text s = .ok (s.newTemplate d) (s.opening .texts) :=
    Template.ofResource_eq hread
  have hrender : ∃ s', (Deeper.within 1).render ((s.opening .texts).enterRoot
      ((s.newTemplate d).frame vars .standard)).1 d.nodes
      { ((s.opening .texts).enterRoot ((s.newTemplate d).frame vars .standard)).2 with written := "" } =
        .ok () s' ∧ s'.written = "ab" := ⟨_, rfl, rfl⟩
  have heval : ∃ s', (s.newTemplate d).evaluateWithin 1 vars .standard (s.opening .texts) = .ok "ab" s' :=
    ⟨_, rfl⟩
  obtain ⟨s', heval⟩ := heval
  have hdiscreet : (s.newTemplate d).DiscreetWithin 1 vars .standard (s.opening .texts) := by
    rintro k ⟨⟩
    refine ⟨trivial, fun _ s₁ hwrite => ?_⟩
    cases hwrite
    refine ⟨⟨⟨trivial, fun b _ _ => ?_⟩, fun v s₂ hv => ?_⟩, fun _ _ _ => trivial⟩
    · cases b with
      | false => trivial
      | true => exact ⟨fun _ _ _ => trivial, fun _ _ _ => trivial⟩
    · cases hv
      refine ⟨⟨trivial, fun host _ hhost => ?_⟩, fun _ _ _ => trivial⟩
      cases hhost
      exact ⟨trivial, fun _ _ _ => trivial⟩
  have h := renderings_agree hparse heval hdiscreet none
  refine ⟨⟨s', ?_⟩, h.1 "t" rfl rfl, h.2.1 rfl, h.2.2 (by decide) (by decide) rfl ?_⟩
  · rw [renderText, Run.bind_ok hparse, heval]
  · rintro ⟨p, loopOnly, s'', hbreak⟩
    obtain ⟨s₁, hr, -⟩ := hrender
    cases hr.symm.trans hbreak

end Stencil
