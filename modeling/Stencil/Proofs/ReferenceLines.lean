import Stencil.Proofs.Parts
import Stencil.Proofs.ReferencePlaces
import Stencil.Proofs.TakenLast

/-!
# The lines that references report

Reading a template passes its references in the order of the text, those in the bodies of its macros too:
`Read.passes`. An evaluation in which an undefined variable, or null, is met in one of them ends with an error
at the place of the reference. So the line that is reported is that of the first name of the reference, or
the next one where a line feed follows the name: `Document.references_report_lines`.
-/

namespace Stencil

open Stencil.Text

variable {text : List Char} {resource : Option String} {es fs : List Expr} {s t : Scanner}

/-! ### Nodes -/

theorem nodesReferences_append (ms ns : List Node) :
    nodesReferences (ms ++ ns) = nodesReferences ms ++ nodesReferences ns := by
  induction ms with
  | nil => rfl
  | cons m ms ih => simp [nodesReferences, ih]

theorem Node.references_of_isBlank {n : Node} (h : n.isBlank = true) : n.references = [] := by
  cases n with
  | text => rfl
  | _ => cases h

/-- Only text gives way to an assignment. -/
theorem isBlank_of_givesWay {n : Node} {ns : List Node} (h : givesWay (n :: ns) = true) : n.isBlank = true := by
  have honLine (h : n.isBlankOnLine = true) : n.isBlank = true := by
    cases n with
    | text p s => exact (Bool.and_eq_true_iff.1 h).1
    | _ => cases h
  cases ns with
  | nil => exact honLine h
  | cons m ns =>
    rw [givesWay] at h
    split at h
    · exact honLine h
    · split at h
      · exact h
      · cases h

/-- No reference is dropped before an assignment. -/
theorem nodesReferences_addNode (done : List Node) (n : Node) :
    nodesReferences (addNode done n).reverse = nodesReferences done.reverse ++ n.references := by
  rw [addNode]
  split
  · rename_i h
    cases done with
    | nil => simp [nodesReferences]
    | cons m ns =>
      have hm := Node.references_of_isBlank (isBlank_of_givesWay (Bool.and_eq_true_iff.1 h).2)
      simp [nodesReferences, nodesReferences_append, hm]
  · simp [nodesReferences, nodesReferences_append]

theorem nodesReferences_dropInitialBlank (ns : List Node) :
    nodesReferences (dropInitialBlank ns) = nodesReferences ns := by
  fun_cases dropInitialBlank ns
  · rename_i m n rest h
    have hm := Node.references_of_isBlank (Bool.and_eq_true_iff.1 h).1
    simp [nodesReferences, hm]
  · rfl
  · rfl

namespace Scan

variable {readInner : ReadInner} {n : Nat}

/-! ### Steps on the scanner -/

theorem references_plainText {start : List Char} : Gives (plainText start) s fun x _ => x.references = [] :=
  .seq fun _ _ _ => .seq (.here (.pure rfl))

theorem passes_plainText {start : List Char} (h : Passed text resource s [] t) :
    Gives (plainText start) t fun x u => Passed text resource s x.references u :=
  h.plain (fun _ _ => .error .exhausted) (.plainText fun _ _ _ => trivial) references_plainText

theorem passes_lineComment (h : Passed text resource s [] t) :
    Gives lineComment t fun x u => Passed text resource s x.references u :=
  h.plain (fun _ _ => .error .exhausted) (.lineComment fun _ _ _ => trivial)
    (.seq (.here (.seq fun _ _ _ => .seq fun _ _ _ => .pure rfl)))

theorem passes_blockComment (h : Passed text resource s [] t) :
    Gives blockComment t fun x u => Passed text resource s x.references u :=
  h.plain (fun _ _ => .error .exhausted) (.blockComment fun _ _ _ => trivial)
    (.seq (.here (.seq fun _ _ _ => .seq fun _ _ _ => .pure rfl)))

theorem references_verbatim : Gives verbatim s fun x _ => x.references = [] := by
  refine .seq fun _ _ _ => .seq (.peek (.ite (fun _ => ?_) fun _ => references_plainText))
  refine .seq (.here (.seq fun _ _ _ => .seq fun u _ _ => ?_))
  dsimp only
  split
  · nofun
  · exact .seq fun _ _ _ => .seq (.here (.pure rfl))

theorem passes_verbatim (h : Passed text resource s [] t) :
    Gives verbatim t fun x u => Passed text resource s x.references u :=
  h.plain (fun _ _ => .error .exhausted) (.verbatim fun _ _ _ => trivial) references_verbatim

/-- What a dollar sign begins is a reference after it and its marks, or text. -/
theorem passes_dollar (h : Passed text resource s [] t) (hdollar : t.current = some '$') :
    Gives (dollar readInner n) t fun x u => Passed text resource s x.references u := by
  have hn : Scan.Passes readInner n text resource := Scan.passes readInner n text resource
  have hrest {quiet : Bool} {start : List Char} (marks : List Char) {u : Scanner}
      (hu : Passed text resource s [] u) (hmarks : marks ∈ referenceMarks ∧ marks ++ ['{'] ∈ referenceMarks)
      (hsuffix : marks ++ u.pending <:+ text) :
      Gives (do
        if (← peek) = some '{' then
          skip
          if ← sees isLetter then
            let e ← reference readInner n quiet
            expect '}'
            return .output e
          else plainText (start ++ ['{'])
        else if ← sees isLetter then
          return .output (← reference readInner n quiet)
        else plainText start) u fun x v => Passed text resource s x.references v := by
    refine .seq (.peek (.ite (fun hbrace => .seq (.skip (.seq (.sees (.ite (fun _ => ?_) fun _ => ?_)))))
      fun _ => .seq (.sees (.ite (fun _ => ?_) fun _ => ?_))))
    · have hbraced : marks ++ ['{'] ++ u.advance.pending <:+ text := by
        simpa [InText.pending_eq hbrace] using hsuffix
      refine hu.advance.call hn (.reference quiet) rfl ⟨_, hmarks.2, hbraced⟩ fun e v hv => ?_
      exact hv.after (.expect fun _ _ => trivial) fun _ w hw => .pure hw
    · exact passes_plainText hu.advance
    · exact hu.call hn (.reference quiet) rfl ⟨_, hmarks.1, hsuffix⟩ fun e v hv => .pure hv
    · exact passes_plainText hu
  have hsuffix := h.inText.suffix
  rw [InText.pending_eq hdollar] at hsuffix
  refine .seq (.skip (.seq (.peek (.ite (fun hquiet => .seq (.skip ?_)) fun _ => ?_))))
  · refine hrest ['$', '!'] h.advance.advance (by decide) ?_
    simpa [InText.pending_eq hquiet] using hsuffix
  · exact hrest ['$'] h.advance (by decide) hsuffix

theorem passes_assignment (h : Passed text resource s [] t) :
    Gives (assignment readInner n) t fun x u => Passed text resource s x.references u := by
  refine h.after (.expect fun _ _ => trivial) fun _ u hu => hu.after (.expect fun _ _ => trivial) fun _ v hv => ?_
  refine hv.after (.name fun _ _ _ => trivial) fun x u hu => hu.after (.expect fun _ _ => trivial) fun _ v hv => ?_
  refine hv.call (Scan.passes readInner n text resource) .expr rfl trivial fun e u hu => ?_
  exact hu.after (.expect fun _ _ => trivial) fun _ v hv => .pure hv

theorem passes_parenthesised (h : Passed text resource s [] t) :
    Gives (parenthesised readInner n) t fun e u => Passed text resource s e.references u := by
  refine h.after (.expect fun _ _ => trivial) fun _ u hu => ?_
  refine hu.call (Scan.passes readInner n text resource) (.primary false) rfl trivial fun e v hv => ?_
  exact hv.after (.expect fun _ _ => trivial) fun _ w hw => .pure hw

theorem passes_leave (h : Passed text resource s [] t) :
    Gives (leave readInner n) t fun x u => Passed text resource s x.references u := by
  refine h.after (.skipBlanks fun _ _ => trivial) fun _ u hu => .seq (.peek ?_)
  refine .ite (fun _ => .seq (.skip ?_)) fun _ => .seq (.here (.pure hu))
  refine hu.advance.call (Scan.passes readInner n text resource) (.primary false) rfl trivial fun e v hv => ?_
  exact hv.after (.expect fun _ _ => trivial) fun _ w hw => .seq (.here (.pure hw))

end Scan

/-! ### The readers of templates -/

/-- The references of an item. -/
def Item.references : Item → List Expr
  | .node x => x.references
  | .mark _ => []

namespace Read

open Scan hiding exhausted Gives Call Passes OnlyTakes Ends

variable {readInner : ReadInner} {n : Nat} {α β : Type} {r r' : Reader}

/-- The references in what a call is given to go on from. -/
def Call.given : Call α → List Expr
  | .nodes done => nodesReferences done.reverse
  | .block _ _ | .item | .directive | .choice _ | .loop | .definition | .macroDefinition | .macroCall _ _ => []

/-- The references in what a call gives. -/
def Call.references : Call α → α → List Expr
  | .nodes _, (ns, _) | .block _ _, (ns, _) => nodesReferences ns
  | .item, x | .directive, x => x.references
  | .choice _, x | .loop, x | .definition, x | .macroDefinition, x | .macroCall _ _, x => x.references

/-- Whether the way of a reader through a text has led to another one, past some references. In the body of
every macro that was defined the references stand in order, too. -/
structure Passed (text : List Char) (resource : Option String) (s : Scanner) (es : List Expr)
    (r : Reader) : Prop where
  passed : Stencil.Passed text resource s es r.scanner
  macros : ∀ m ∈ r.macros, InOrder text resource (nodesReferences m.body) text.length 0

/-- Whether every call with certain fuel passes the references of what it gives, those that it is given
first. -/
def Passes (readInner : ReadInner) (n : Nat) (text : List Char) (resource : Option String) : Prop :=
  ∀ {α : Type} (c : Call α) (s : Scanner) (r : Reader), Passed text resource s c.given r →
    Gives (c.run readInner n) r fun a r' => Passed text resource s (c.references a) r'

theorem Gives.mono {Φ Ψ : α → Reader → Prop} {x : Read α} (h : Gives x r Φ)
    (hΨ : ∀ a r', Φ a r' → Ψ a r') : Gives x r Ψ :=
  fun a r' hx => hΨ a r' (h a r' hx)

namespace Passed

variable {f : β → Read α} {Φ : α → Reader → Prop}

theorem trans (h : Passed text resource s es r) (h' : Passed text resource r.scanner fs r') :
    Passed text resource s (es ++ fs) r' :=
  ⟨h.passed.trans h'.passed, h'.macros⟩

/-- The references that are passed from here on. -/
theorem refl (h : Passed text resource s es r) : Passed text resource r.scanner [] r :=
  ⟨.refl h.passed.inText, h.macros⟩

/-- A step on the scanner. -/
theorem scan (h : Passed text resource s es r) {x : Scan β} {refs : β → List Expr}
    (hx : Scan.Gives x r.scanner fun b t => Stencil.Passed text resource s (refs b) t) :
    Gives (Read.scan x) r fun b r' => Passed text resource s (refs b) r' :=
  .scan fun b t hb => ⟨hx b t hb, h.macros⟩

/-- Goes on after a step on the scanner that calls no reader. -/
theorem after (h : Passed text resource s es r) {x : Scan β}
    (hx : Scan.Course (fun _ _ => .error .exhausted) 0 0 x r.scanner fun _ _ => True)
    (hf : ∀ b r', Passed text resource s es r' → Gives (f b) r' Φ) : Gives (Read.scan x >>= f) r Φ :=
  .seq ((h.scan ((h.passed.quiet hx).mono fun _ _ hb => hb.1)).mono hf)

/-- Goes on after reading an expression, or a row of them. -/
theorem read (h : Passed text resource s es r) (readInner : ReadInner) (c : Scan.Call β) (hgiven : c.given = [])
    (hmarked : c.Marked text r.scanner)
    (hf : ∀ b r', Passed text resource s (es ++ c.references b) r' → Gives (f b) r' Φ) :
    Gives (Read.scan (c.run readInner n) >>= f) r Φ := by
  have hc := Scan.passes readInner n text resource c r.scanner r.scanner (hgiven ▸ .refl h.passed.inText) hmarked
  exact .seq ((h.scan (hc.mono fun b t hb => h.passed.trans hb)).mono hf)

/-- Goes on after a call that is given nothing. -/
theorem call (h : Passed text resource s es r) (hn : Passes readInner n text resource) (c : Call β)
    (hgiven : c.given = [])
    (hf : ∀ b r', Passed text resource s (es ++ c.references b) r' → Gives (f b) r' Φ) :
    Gives (c.run readInner n >>= f) r Φ :=
  .seq ((hn c r.scanner r (hgiven ▸ h.refl)).mono fun b r' hb => hf b r' (h.trans hb))

/-- Goes on after a block. -/
theorem block (h : Passed text resource s es r) (hn : Passes readInner n text resource) {allowed : List Mark}
    {inside : Enclosure} {f : List Node × Mark → Read α}
    (hf : ∀ p r', Passed text resource s (es ++ nodesReferences p.1) r' → Gives (f p) r' Φ) :
    Gives (Read.block readInner n allowed inside >>= f) r Φ :=
  h.call hn (.block allowed inside) rfl hf

/-- Defining a macro whose references were passed last. -/
theorem define (h : Passed text resource s es r) {m : MacroDef} {k l : Nat}
    (hm : InOrder text resource (nodesReferences m.body) k l) (hk : k ≤ text.length) :
    Gives (Read.define m) r fun _ r' => Passed text resource s es r' := by
  rintro _ _ ⟨⟩
  refine ⟨h.passed, fun m' hm' => ?_⟩
  change m' ∈ addMacro r.macros m at hm'
  rw [addMacro] at hm'
  split at hm'
  · exact h.macros m' hm'
  · rcases List.mem_append.1 hm' with hm' | hm'
    · exact h.macros m' hm'
    · rw [List.mem_singleton.1 hm']
      exact hm.mono hk (Nat.zero_le l)

end Passed

theorem passes_nodes (hn : Passes readInner n text resource) {done : List Node}
    (h : Passed text resource s (nodesReferences done.reverse) r) :
    Gives (nodes readInner (n + 1) done) r fun p r' => Passed text resource s (nodesReferences p.1) r' := by
  refine h.call hn .item rfl fun x r₁ h₁ => ?_
  cases x with
  | mark m => exact .pure (by simpa [Call.references, Item.references] using h₁)
  | node x =>
    refine hn (.nodes (addNode done x)) s r₁ ?_
    rw [Call.given, nodesReferences_addNode]
    exact h₁

theorem passes_block (hn : Passes readInner n text resource) {allowed : List Mark} {inside : Enclosure}
    (h : Passed text resource s [] r) : Gives (block readInner (n + 1) allowed inside) r
      fun p r' => Passed text resource s (nodesReferences p.1) r' := by
  refine h.after (.skipNewline fun _ _ => trivial) fun _ r₁ h₁ => ?_
  refine h₁.call hn (.nodes []) rfl fun p r₂ h₂ => ?_
  exact h₂.after (.close trivial) fun _ r₃ h₃ => .pure h₃

theorem passes_item (hn : Passes readInner n text resource) (h : Passed text resource s [] r) :
    Gives (item readInner (n + 1)) r fun x r' => Passed text resource s x.references r' := by
  have hnode {x : Scan Node} {r : Reader} (h : Passed text resource s [] r)
      (hx : Scan.Gives x r.scanner fun x t => Stencil.Passed text resource s x.references t) :
      Gives (do return Item.node (← x)) r fun x r' => Passed text resource s x.references r' :=
    .seq ((h.scan hx).mono fun x r' h' => .pure h')
  have hskip {f : Unit → Read Item} {r : Reader} (h : Passed text resource s [] r)
      (hf : ∀ r', Passed text resource s [] r' →
        Gives (f ()) r' fun x r' => Passed text resource s x.references r') :
      Gives (Read.scan skip >>= f) r fun x r' => Passed text resource s x.references r' :=
    h.after (.skip trivial) fun _ => hf
  refine .after (.peek ?_)
  split
  · exact .pure h
  · refine hskip h fun r₁ h₁ => .after (.peek ?_)
    split
    · exact hnode h₁ (passes_lineComment h₁.passed)
    · exact hnode h₁ (passes_blockComment h₁.passed)
    · exact hnode h₁ (passes_verbatim h₁.passed)
    · exact hn .directive s r₁ h₁
    · refine hskip h₁ fun r₂ h₂ => .after (.sees (.ite (fun _ => ?_) fun _ => ?_))
      · refine h₂.after (.name fun _ _ _ => trivial) fun x r₃ h₃ => ?_
        exact h₃.call hn (.macroCall true x) rfl fun y r₄ h₄ => .pure h₄
      · exact hnode h₂ (passes_plainText h₂.passed)
    · exact .ite (fun _ => hn .directive s r₁ h₁) fun _ => hnode h₁ (passes_plainText h₁.passed)
    · exact hnode h₁ (passes_plainText h₁.passed)
  · exact hnode h (passes_dollar h.passed ‹_›)
  · exact hskip h fun r₁ h₁ => hnode h₁ (passes_plainText h₁.passed)

theorem passes_directive (hn : Passes readInner n text resource) (h : Passed text resource s [] r) :
    Gives (directive readInner (n + 1)) r fun x r' => Passed text resource s x.references r' := by
  refine h.after (.directiveName fun _ _ _ => trivial) fun d r₁ h₁ => ?_
  have hline {x : Item} {r : Reader} (h : Passed text resource s x.references r) :
      Gives (do skipNewline; return x) r fun x r' => Passed text resource s x.references r' :=
    h.after (.skipNewline fun _ _ => trivial) fun _ r' h' => .pure h'
  split
  · exact hline h₁
  · exact hline h₁
  · exact hline h₁
  · exact h₁.call hn (.choice "#if") rfl fun x r₂ h₂ => .pure h₂
  · exact h₁.call hn .loop rfl fun x r₂ h₂ => .pure h₂
  · exact .seq ((h₁.scan (passes_leave h₁.passed)).mono fun x r₂ h₂ => .pure h₂)
  · exact .seq ((h₁.scan (passes_assignment h₁.passed)).mono fun x r₂ h₂ => hline h₂)
  · exact h₁.call hn .definition rfl fun x r₂ h₂ => hline h₂
  · exact .after (.here (.seq ((h₁.scan (passes_parenthesised h₁.passed)).mono fun e r₂ h₂ => hline h₂)))
  · exact h₁.call hn .macroDefinition rfl fun x r₂ h₂ => .pure h₂
  · exact .after (.here (.seq ((h₁.scan (passes_parenthesised h₁.passed)).mono fun e r₂ h₂ => hline h₂)))
  · exact h₁.call hn (.macroCall false d) rfl fun x r₂ h₂ => hline h₂

theorem passes_choice (hn : Passes readInner n text resource) {opener : String}
    (h : Passed text resource s [] r) : Gives (choice readInner (n + 1) opener) r
      fun x r' => Passed text resource s x.references r' := by
  refine .after (.here (h.after (.expect fun _ _ => trivial) fun _ r₁ h₁ => ?_))
  refine h₁.read readInner .expr rfl trivial fun condition r₂ h₂ => ?_
  refine h₂.after (.expect fun _ _ => trivial) fun _ r₃ h₃ => ?_
  refine h₃.block hn fun p r₄ h₄ => ?_
  obtain ⟨yes, m⟩ := p
  dsimp only
  split
  · exact h₄.call hn (.choice "#elseif") rfl fun no r₅ h₅ => .pure h₅
  · refine .after (.here (h₄.call hn (.nodes []) rfl fun p r₅ h₅ => ?_))
    exact h₅.after (.close trivial) fun _ r₆ h₆ => .pure h₆
  · exact .after (.here (.pure (by simpa [Node.references, nodesReferences, Scan.Call.references] using h₄)))

theorem passes_loop (hn : Passes readInner n text resource) (h : Passed text resource s [] r) :
    Gives (loop readInner (n + 1)) r fun x r' => Passed text resource s x.references r' := by
  have hhead := h.passed.quiet (Scan.Course.loopHead (Nat.le_refl _) fun _ _ _ => trivial :
    Scan.Course readInner n _ (loopHead readInner n) r.scanner fun _ _ => True)
  refine .after (.here (.seq ((h.scan (hhead.mono fun _ _ ht => ht.1)).mono fun x r₁ h₁ => ?_)))
  refine h₁.read readInner .expr rfl trivial fun e r₂ h₂ => ?_
  refine h₂.after (.expect fun _ _ => trivial) fun _ r₃ h₃ => ?_
  exact h₃.block hn fun p r₄ h₄ => .pure h₄

theorem passes_definition (hn : Passes readInner n text resource) (h : Passed text resource s [] r) :
    Gives (definition readInner (n + 1)) r fun x r' => Passed text resource s x.references r' := by
  refine .after (.here (h.after (.expect fun _ _ => trivial) fun _ r₁ h₁ => ?_))
  refine h₁.after (.expect fun _ _ => trivial) fun _ r₂ h₂ => ?_
  refine h₂.after (.name fun _ _ _ => trivial) fun x r₃ h₃ => ?_
  refine h₃.after (.expect fun _ _ => trivial) fun _ r₄ h₄ => ?_
  exact h₄.block hn fun p r₅ h₅ => .pure h₅

/-- The references in the body of a macro are kept with it, and not with the text around its definition. -/
theorem passes_macroDefinition (hn : Passes readInner n text resource) (h : Passed text resource s [] r) :
    Gives (macroDefinition readInner (n + 1)) r fun x r' => Passed text resource s x.references r' := by
  refine .after (.here (h.after (.expect fun _ _ => trivial) fun _ r₁ h₁ => ?_))
  refine h₁.after (.skipBlanks fun _ _ => trivial) fun _ r₂ h₂ => ?_
  refine h₂.after (.name fun _ _ _ => trivial) fun x r₃ h₃ => ?_
  refine h₃.read readInner .parameters rfl trivial fun params r₄ h₄ => ?_
  refine h₄.refl.block hn fun p r₅ h₅ => ?_
  have hbody : InOrder text resource (nodesReferences (dropInitialBlank p.1)) r₄.scanner.left
      r₅.scanner.left := by
    rw [nodesReferences_dropInitialBlank]
    exact h₅.passed.order
  have hpast : Passed text resource s [] r₅ := ⟨h₄.passed.on h₅.passed.inText hbody.le, h₅.macros⟩
  refine .seq ((hpast.define hbody h₄.passed.inText.suffix.length_le).mono fun _ r₆ h₆ => ?_)
  exact .after (.here (.pure h₆))

theorem passes_macroCall (hn : Passes readInner n text resource) {hasBody : Bool} {x : String}
    (h : Passed text resource s [] r) : Gives (macroCall readInner (n + 1) hasBody x) r
      fun x r' => Passed text resource s x.references r' := by
  refine .after (.here (h.after (.takeWhile fun _ _ => trivial) fun blanks r₁ h₁ => .after (.peek ?_)))
  refine .ite (fun _ => ?_) fun _ => .ite (fun _ => .scan .fail) fun _ => .ite (fun _ => .scan .fail) fun _ => ?_
  · refine h₁.after (.skip trivial) fun _ r₂ h₂ => ?_
    refine h₂.read readInner .callArguments rfl trivial fun args r₃ h₃ => ?_
    refine .ite (fun _ => ?_) fun _ => .after (.here (.pure h₃))
    exact h₃.block hn fun p r₄ h₄ => .after (.here (.pure h₄))
  · exact h₁.scan (passes_plainText h₁.passed)

/-- The readers pass the references of what they give, in the order of the text. -/
theorem passes (readInner : ReadInner) (n : Nat) (text : List Char) (resource : Option String) :
    Passes readInner n text resource := by
  induction n with
  | zero =>
    intro α c s r h
    cases c <;> exact .exhausted
  | succ n hn =>
    intro α c s r h
    cases c with
    | nodes done => exact passes_nodes hn h
    | block allowed inside => exact passes_block hn h
    | item => exact passes_item hn h
    | directive => exact passes_directive hn h
    | choice opener => exact passes_choice hn h
    | loop => exact passes_loop hn h
    | definition => exact passes_definition hn h
    | macroDefinition => exact passes_macroDefinition hn h
    | macroCall hasBody x => exact passes_macroCall hn h

end Read

/-! ### What references report -/

/-- A reference meets an undefined variable or null: in a script that is begun from a store, and for the
cause that is given. Null is met where the reference is written out, or by a suffix of it. -/
inductive MeetsNothing (k : Nat) {scope : Scope} (s : Store) (place : Place) (x : String) (quiet : Bool)
    (suffixes : List Suffix) : {α : Type} → Script scope α → EvalCause → Prop
  | undefined {lenient : Bool} (hx : s.isDefined scope x = false)
      (hlenient : (lenient && suffixes.isEmpty) = false) :
      MeetsNothing k s place x quiet suffixes (evalExpr scope (.reference place x quiet suffixes) lenient)
        (.undefined x)
  | output {s' : Store} (hquiet : quiet = false)
      (hnull : (evalExpr scope (.reference place x quiet suffixes) false).run (Deeper.within k) s =
        .ok .null s') :
      MeetsNothing k s place x quiet suffixes (renderNode scope (.output (.reference place x quiet suffixes)))
        (.nullOutput (Expr.reference place x quiet suffixes).source)
  | base {before after : List Suffix} {suffix : Suffix} {lenient : Bool} {s' : Store}
      (hsuffixes : suffixes = before ++ suffix :: after)
      (hnull : (evalExpr scope (.reference place x quiet before) false).run (Deeper.within k) s =
        .ok .null s') :
      MeetsNothing k s place x quiet suffixes (evalExpr scope (.reference place x quiet suffixes) lenient)
        (.nullBase (referenceSource x quiet (before ++ [suffix])) (referenceSource x quiet before))

/-- The script then ends with an error at the place of the reference. -/
theorem MeetsNothing.fails {k : Nat} {scope : Scope} {s : Store} {place : Place} {x : String} {quiet : Bool}
    {suffixes : List Suffix} {α : Type} {y : Script scope α} {cause : EvalCause}
    (h : MeetsNothing k s place x quiet suffixes y cause) :
    ∃ s', y.run (Deeper.within k) s = .error (.failure (.evaluation ⟨some place, cause, []⟩)) s' := by
  cases h with
  | undefined hx hlenient =>
    refine ⟨s, ?_⟩
    rw [run_evalExpr_reference, hx, hlenient]
    rfl
  | @output s' hquiet hnull =>
    refine ⟨s', ?_⟩
    rw [renderNode, Script.run_bind, Run.bind_ok hnull]
    subst hquiet
    rfl
  | @base before after suffix lenient s' hsuffixes hnull =>
    subst hsuffixes
    have hreach := Reaches.reference (suffix :: after) lenient hnull
    have hsuffix : (evalSuffixes scope place (referenceSource x quiet) before (suffix :: after) .null).run
        (Deeper.within k) s' = .error (.failure (.evaluation ⟨some place, .nullBase
          (referenceSource x quiet (before ++ [suffix])) (referenceSource x quiet before), []⟩)) s' := by
      rw [evalSuffixes]
      rfl
    exact hreach.fails hsuffix

theorem InOrder.stands {k l : Nat} {e : Expr} (h : InOrder text resource es k l) (he : e ∈ es) :
    ∃ rest, StandsBefore text resource e rest := by
  induction h with
  | nil => cases he
  | @cons _ _ rest _ _ hstands _ _ ih =>
    rcases List.mem_cons.1 he with rfl | he
    · exact ⟨rest, hstands⟩
    · exact ih he

namespace Document

/-- The references of a document, and those in the bodies of its macros. -/
def references (d : Document) : List (List Expr) :=
  nodesReferences d.nodes :: d.macros.map fun m => nodesReferences m.body

theorem inOrder_of_read {readInner : ReadInner} {resource : Option String} {text : String} {d : Document}
    (h : readWith readInner resource text = .ok d) (es : List Expr) (hes : es ∈ d.references) :
    InOrder (unifyNewlines text.toList) resource es (unifyNewlines text.toList).length 0 := by
  have hpending := Scanner.pending_ofText text resource
  have hstart : Read.Passed (unifyNewlines text.toList) resource (Scanner.ofText text resource) []
      ⟨Scanner.ofText text resource, []⟩ :=
    ⟨.refl ⟨.ofText text resource, Scanner.resource_ofText text resource, hpending ▸ List.suffix_refl _⟩,
      nofun⟩
  have hnodes := Read.passes readInner (fuelFor (Scanner.ofText text resource)) _ resource (.nodes []) _ _ hstart
  have hdocument : Read.Gives (Read.document readInner (fuelFor (Scanner.ofText text resource)))
      ⟨Scanner.ofText text resource, []⟩ fun ns r => Read.Passed (unifyNewlines text.toList) resource
        (Scanner.ofText text resource) (nodesReferences ns) r :=
    .seq (hnodes.mono fun p r hp => hp.after (.close trivial) fun _ r' hr' => .pure hr')
  rw [readWith] at h
  split at h
  · rename_i ns r hread
    cases h
    have hpassed := hdocument ns r hread
    rcases List.mem_cons.1 hes with rfl | hes
    · refine hpassed.passed.order.mono ?_ (Nat.zero_le _)
      rw [Scanner.left, hpending]
    · obtain ⟨m, hm, rfl⟩ := List.mem_map.1 hes
      exact hpassed.macros m hm
  · cases h

/-- The references of a text, and those in the bodies of its macros, stand in it one after the other, each
after a dollar sign and its marks, with a first name as long as it can be. The line of a reference is that of
this name, or the next one where a line feed follows the name, however its suffixes go on. Every evaluation in
which an undefined variable or null is met in the reference ends with an error that has this place. -/
theorem references_report_lines (readInner : ReadInner) (resource : Option String) (text : String)
    (d : Document) (h : readWith readInner resource text = .ok d) (es : List Expr) (hes : es ∈ d.references) :
    InOrder (unifyNewlines text.toList) resource es (unifyNewlines text.toList).length 0 ∧
      ∀ e ∈ es, ∃ before c cs rest line quiet suffixes,
        unifyNewlines text.toList = before ++ c :: cs ++ rest ∧
          (∃ mark ∈ referenceMarks, mark <:+ before) ∧ isLetter c = true ∧
          (∀ d ∈ cs, isNameChar d = true) ∧ (∀ d ∈ rest.head?, isNameChar d = false) ∧
        e = .reference ⟨resource, line⟩ (String.ofList (c :: cs)) quiet suffixes ∧
        line = 1 + newlines before + (if rest.head? = some '\n' then 1 else 0) ∧
        ∀ {k n : Nat} {scope : Scope} {s s₁ : Store} {α : Type} {y : Script scope α} {cause : EvalCause}
          {ls : List Layer} {t : Template} {vars : Bindings Value} {host : HostKind},
          MeetsNothing k s₁ ⟨resource, line⟩ (String.ofList (c :: cs)) quiet suffixes y cause →
          t.Reaches k y s₁ ls n vars host s →
          ∃ s', t.evaluateWithin (n + 1) vars host s =
            .error (.failure (.evaluation ⟨some ⟨resource, line⟩, cause, Layer.steps ls⟩)) s' := by
  have horder := inOrder_of_read h es hes
  refine ⟨horder, fun e he => ?_⟩
  obtain ⟨rest, hstands⟩ := horder.stands he
  cases e with
  | reference place x quiet suffixes =>
    obtain ⟨before, c, cs, hmark, htext, rfl, hc, hcs, hrest, rfl⟩ := hstands
    refine ⟨before, c, cs, rest, _, quiet, suffixes, htext, hmark, hc, hcs, hrest, rfl, rfl, ?_⟩
    intro k n scope s s₁ α y cause ls t vars host hmeets hreach
    obtain ⟨s₂, hfails⟩ := hmeets.fails
    obtain ⟨s', hs'⟩ := Template.fails_of_reaches hreach hfails
    refine ⟨s', hs'.trans ?_⟩
    rw [Layer.through_evaluation (Reaches.traces hreach), List.append_nil]
  | _ => exact hstands.elim

/-- The line feed after `$x` is counted before the reference, which begins the text: it is said to stand on
line 2. -/
theorem references_report_lines_before_line_feed :
    let e : Expr := .reference ⟨none, 2⟩ "x" false []
    let d : Document := ⟨⟨none, 2⟩, [.output e, .text ⟨none, 2⟩ "\n"], []⟩
    let t : Template := ⟨0, d, ⟨0⟩⟩
    readWith readInside none "$x\n" = .ok d ∧ [e] ∈ d.references ∧
      (∃ rest, "$x\n".toList = '$' :: 'x' :: rest ∧ newlines ['$'] = 0) ∧
      ∃ s', t.evaluateWithin 2 [] .standard {} =
        .error (.failure (.evaluation ⟨some ⟨none, 2⟩, .undefined "x", []⟩)) s' := by
  intro e d t
  have hread : readWith readInside none "$x\n" = .ok d := by rfl
  have hes : [e] ∈ d.references := List.mem_singleton.2 rfl
  obtain ⟨-, hlines⟩ := references_report_lines readInside none "$x\n" d hread [e] hes
  obtain ⟨before, c, cs, rest, line, quiet, suffixes, -, -, -, -, -, he, -, hfails⟩ := hlines e (by simp)
  injection he with hplace hname hquiet hsuffixes
  refine ⟨hread, hes, ⟨['\n'], by decide, by decide⟩, ?_⟩
  rw [← hplace, ← hname, ← hquiet, ← hsuffixes] at hfails
  let start := ({} : Store).enterRoot ⟨[], t.macros, .standard, t.loader⟩
  have hmeets : MeetsNothing 1 start.2 ⟨none, 2⟩ "x" false [] (evalExpr start.1 e false) (.undefined "x") :=
    .undefined rfl rfl
  have hreach : t.Reaches 1 (evalExpr start.1 e false) start.2 [] 1 [] .standard {} := by
    apply Reaches.first
    apply Reaches.first
    exact .here
  exact hfails hmeets hreach

end Document

end Stencil
