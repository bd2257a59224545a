import Stencil.Proofs.CharacterList
import Stencil.Proofs.SuffixChain

/-!
# Where references stand

The references of a tree in the order of the text, `Expr.references`, and where each stands in a text:
after a dollar sign and its marks, with its first name as long as it can be, `StandsBefore`. The reader takes
the place of a reference when it has read that name and looks at the next character, so the line is that of
the name, or the next one where a line feed follows the name.

`Passed` says which references a scanner has passed on its way through a text, in order. Steps that read no
reference keep it, and the readers of expressions extend it by the references of what they give:
`Scan.Call.passes`, by induction on the fuel.
-/

namespace Stencil

open Stencil.Text

mutual

/-- The references of an expression in the order of the text, each before those in its suffixes. A text
literal is a text of its own. -/
def Expr.references : Expr → List Expr
  | .literal .. | .text .. => []
  | .binary lhs _ rhs => lhs.references ++ rhs.references
  | .negation _ e => e.references
  | .list _ es => exprsReferences es
  | .range _ first last => first.references ++ last.references
  | .reference place x quiet suffixes => .reference place x quiet suffixes :: suffixesReferences suffixes

/-- The references of expressions. -/
def exprsReferences : List Expr → List Expr
  | [] => []
  | e :: es => e.references ++ exprsReferences es

/-- The references of a suffix. -/
def Suffix.references : Suffix → List Expr
  | .member _ => []
  | .method _ args => exprsReferences args
  | .index key => key.references

/-- The references of suffixes. -/
def suffixesReferences : List Suffix → List Expr
  | [] => []
  | s :: ss => s.references ++ suffixesReferences ss

end

mutual

/-- The references of a node in the order of the text. -/
def Node.references : Node → List Expr
  | .text .. | .comment _ | .leave _ => []
  | .sequence _ nodes | .define _ _ nodes => nodesReferences nodes
  | .output e | .assign _ e | .leaveScope _ e | .parse _ e | .evaluate _ e => e.references
  | .choose _ condition yes no => condition.references ++ nodesReferences yes ++ no.references
  | .foreach _ _ collection body => collection.references ++ nodesReferences body
  | .call _ _ args => exprsReferences args
  | .callWith _ _ args _ body => exprsReferences args ++ nodesReferences body

/-- The references of nodes. -/
def nodesReferences : List Node → List Expr
  | [] => []
  | n :: ns => n.references ++ nodesReferences ns

end

/-- What stands before the first name of a reference. -/
def referenceMarks : List (List Char) :=
  [['$'], ['$', '!'], ['$', '{'], ['$', '!', '{']]

/-- Whether a reference stands in a text, with certain characters after its first name. The name is as long
as it can be, and the line is one more than the line feeds before it, and one more again where a line feed
follows it. -/
def StandsBefore (text : List Char) (resource : Option String) : Expr → List Char → Prop
  | .reference place x _ _, rest =>
    ∃ before c cs, (∃ mark ∈ referenceMarks, mark <:+ before) ∧ text = before ++ c :: cs ++ rest ∧
      x = String.ofList (c :: cs) ∧ isLetter c = true ∧ (∀ d ∈ cs, isNameChar d = true) ∧
      (∀ d ∈ rest.head?, isNameChar d = false) ∧
      place = ⟨resource, 1 + newlines before + if rest.head? = some '\n' then 1 else 0⟩
  | _, _ => False

/-- Whether references stand in a text one after the other, where so many characters of it are left at
first, and so many at last. -/
inductive InOrder (text : List Char) (resource : Option String) : List Expr → Nat → Nat → Prop
  | nil {first last : Nat} (h : last ≤ first) : InOrder text resource [] first last
  | cons {e : Expr} {es : List Expr} {rest : List Char} {first last : Nat}
      (he : StandsBefore text resource e rest) (hlt : rest.length < first)
      (hes : InOrder text resource es rest.length last) : InOrder text resource (e :: es) first last

variable {text : List Char} {resource : Option String} {es fs : List Expr} {k l m : Nat}

namespace InOrder

theorem le (h : InOrder text resource es k l) : l ≤ k := by
  induction h with
  | nil h => exact h
  | cons _ hlt _ ih => omega

theorem mono (h : InOrder text resource es k l) {k' l' : Nat} (hk : k ≤ k') (hl : l' ≤ l) :
    InOrder text resource es k' l' := by
  induction h generalizing k' with
  | nil h => exact .nil (by omega)
  | cons he hlt _ ih => exact .cons he (by omega) (ih (Nat.le_refl _) hl)

theorem append (h : InOrder text resource es k l) (h' : InOrder text resource fs l m) :
    InOrder text resource (es ++ fs) k m := by
  induction h with
  | nil hle => exact h'.mono hle (Nat.le_refl _)
  | cons he hlt _ ih => exact .cons he hlt (ih h')

theorem singleton {e : Expr} {rest : List Char} (h : StandsBefore text resource e rest)
    (hlt : rest.length < k) (hl : l ≤ rest.length) : InOrder text resource [e] k l :=
  .cons h hlt (.nil hl)

end InOrder

/-- Whether a scanner stands in a text, and has all that follows it there still to be read. -/
structure InText (text : List Char) (resource : Option String) (s : Scanner) : Prop where
  stands : s.Stands text
  resource : s.resource = resource
  suffix : s.pending <:+ text

/-- Whether the way of a scanner through a text has led to another one, past some references. -/
structure Passed (text : List Char) (resource : Option String) (s : Scanner) (es : List Expr)
    (t : Scanner) : Prop where
  inText : InText text resource t
  order : InOrder text resource es s.left t.left

open Scanner (Op Tidy after)

theorem Scanner.Stands.after {s : Scanner} (h : s.Stands text) (ops : List Op) :
    (Scanner.after ops s).Stands text := by
  induction ops generalizing s with
  | nil => exact h
  | cons o ops ih =>
    cases o with
    | advance => exact ih h.advance
    | putBack c => exact ih (h.putBack c)

theorem Scanner.resource_after (ops : List Op) (s : Scanner) : (Scanner.after ops s).resource = s.resource := by
  induction ops generalizing s with
  | nil => rfl
  | cons o ops ih => exact (ih (o.apply s)).trans (resource_apply o s)

variable {s t u : Scanner}

theorem InText.after (h : InText text resource s) {ops : List Op} (htidy : Tidy s ops) :
    InText text resource (Scanner.after ops s) ∧ (Scanner.after ops s).left ≤ s.left := by
  have hsuffix : (Scanner.after ops s).pending <:+ s.pending := htidy.suffix (List.append_nil ops).symm
  refine ⟨⟨h.stands.after ops, ?_, hsuffix.trans h.suffix⟩, hsuffix.length_le⟩
  rw [Scanner.resource_after, h.resource]

namespace Passed

theorem refl (h : InText text resource s) : Passed text resource s [] s :=
  ⟨h, .nil (Nat.le_refl _)⟩

theorem trans (h : Passed text resource s es t) (h' : Passed text resource t fs u) :
    Passed text resource s (es ++ fs) u :=
  ⟨h'.inText, h.order.append h'.order⟩

/-- Going on past no reference. -/
theorem on (h : Passed text resource s es t) (hu : InText text resource u) (hle : u.left ≤ t.left) :
    Passed text resource s es u :=
  ⟨hu, h.order.mono (Nat.le_refl _) hle⟩

theorem advance (h : Passed text resource s es t) : Passed text resource s es t.advance := by
  obtain ⟨hin, hle⟩ := h.inText.after (.advance (.nil (s := t.advance)))
  exact h.on hin hle

end Passed

namespace Scan

variable {readInner : ReadInner} {n w : Nat} {α β : Type} {Φ : α → Scanner → Prop}
  {Ψ : β → Scanner → Prop}

theorem Gives.and {x : Scan α} {Ψ : α → Scanner → Prop} (h : Gives x s Φ) (h' : Gives x s Ψ) :
    Gives x s fun a t => Φ a t ∧ Ψ a t :=
  fun a t hx => ⟨h a t hx, h' a t hx⟩

theorem Gives.mono {x : Scan α} {Ψ : α → Scanner → Prop} (h : Gives x s Φ)
    (hΨ : ∀ a t, Φ a t → Ψ a t) : Gives x s Ψ :=
  fun a t hx => hΨ a t (h a t hx)

end Scan

namespace Passed

open Scan (Gives Course)

variable {readInner : ReadInner} {n w : Nat} {α β : Type} {Φ : α → Scanner → Prop}
  {Ψ : β → Scanner → Prop}

/-- A step of which no reference is kept. -/
theorem quiet (h : Passed text resource s es t) {x : Scan β} (hx : Course readInner n w x t Ψ) :
    Gives x t fun b u => Passed text resource s es u ∧ Ψ b u := by
  intro b u hb
  obtain ⟨ops, o, hdoes, htidy, hΨ⟩ := hx.goes fun c v hv => c.goes n v hv
  obtain ⟨ho, hafter⟩ := hdoes.sound
  have hend : o = .ok b u := ho.symm.trans hb
  obtain ⟨hin, hle⟩ := h.inText.after htidy
  rw [← hafter b u hend] at hin hle
  exact ⟨h.on hin hle, hΨ b u hend⟩

/-- A step whose result holds no reference. -/
theorem plain (h : Passed text resource s es t) (readInner : ReadInner) {x : Scan β} {refs : β → List Expr}
    (hx : Course readInner 0 (8 * t.left + 1) x t fun _ _ => True) (hnone : Gives x t fun b _ => refs b = []) :
    Gives x t fun b u => Passed text resource s (es ++ refs b) u :=
  ((h.quiet hx).and hnone).mono fun b u hb => by simpa [hb.2] using hb.1.1

/-- Goes on after a step that calls no reader. -/
theorem after (h : Passed text resource s es t) {x : Scan β} {f : β → Scan α}
    (hx : Course (fun _ _ => .error .exhausted) 0 0 x t fun _ _ => True)
    (hf : ∀ b u, Passed text resource s es u → Gives (f b) u Φ) : Gives (x >>= f) t Φ :=
  .seq ((h.quiet hx).mono fun b u hb => hf b u hb.1)

end Passed

/-! ### The place of a reference -/

theorem newlines_append (cs ds : List Char) : newlines (cs ++ ds) = newlines cs + newlines ds := by
  simp [newlines]

theorem newlines_name {c : Char} {cs : List Char} (hc : isLetter c = true)
    (hcs : ∀ d ∈ cs, isNameChar d = true) : newlines (c :: cs) = 0 := by
  have hchars : ∀ d ∈ c :: cs, isNameChar d = true := by
    simpa using ⟨isNameChar_of_isLetter hc, hcs⟩
  rw [newlines, List.count_eq_zero]
  intro hmem
  exact absurd (hchars '\n' hmem) (by decide)

/-- After a name, before which nothing was put back, the line counts the line feeds before the name and the
next character. -/
theorem InText.line_after_name (h : InText text resource t) (hslot : t.slot = none) {before cs : List Char}
    {c : Char} (hc : isLetter c = true) (hcs : ∀ d ∈ cs, isNameChar d = true)
    (htext : text = before ++ c :: cs ++ t.pending) :
    t.line = 1 + newlines before + if t.pending.head? = some '\n' then 1 else 0 := by
  obtain ⟨taken, htaken, hline⟩ := h.stands.read
  have hend := h.stands.atEnd
  obtain ⟨resource, current, slot, rest, line⟩ := t
  subst hslot
  change text = taken ++ rest at htaken
  change line = 1 + newlines taken at hline
  subst hline
  cases current with
  | none =>
    obtain ⟨-, rfl⟩ := hend rfl
    have hall : taken = before ++ c :: cs := by
      simpa [htaken, Scanner.pending] using htext
    simp [hall, newlines_append, newlines_name hc hcs, Scanner.pending]
  | some d =>
    have hall : taken = before ++ c :: cs ++ [d] := by
      have heq : taken ++ rest = before ++ c :: cs ++ [d] ++ rest := by
        simpa [htaken, Scanner.pending] using htext
      exact List.append_cancel_right heq
    rw [hall, newlines_append, newlines_append, newlines_name hc hcs]
    by_cases hd : d = '\n' <;> simp [hd, Scanner.pending, newlines_cons, Nat.add_assoc]

theorem InText.pending_eq {c : Char} (hc : t.current = some c) : t.pending = c :: t.advance.pending := by
  obtain ⟨cs, hcs⟩ := List.head?_eq_some_iff.1 (t.current_eq ▸ hc)
  rw [Scanner.pending_advance, hcs]
  rfl

/-! ### The readers of expressions -/

namespace Scan

variable {readInner : ReadInner} {n : Nat} {α β : Type}

namespace Call

/-- The references in what a call is given to go on from. -/
def given : Call α → List Expr
  | .climb lhs _ _ => lhs.references
  | .climbRight rhs _ _ => rhs.references
  | .expr | .unary | .primary _ | .word _ | .listOrRange | .elements | .required | .reference _
  | .suffixes | .arguments | .moreArguments | .callArguments | .parameters => []

/-- The references in what a call gives. -/
def references : Call α → α → List Expr
  | .climb _ _ _, (e, _) | .climbRight _ _ _, (e, _) => e.references
  | .expr, e | .unary, e | .primary _, e | .word _, e | .listOrRange, e | .required, e
  | .reference _, e => e.references
  | .elements, es | .arguments, es | .moreArguments, es | .callArguments, es => exprsReferences es
  | .suffixes, ss => suffixesReferences ss
  | .parameters, _ => []

/-- What a call has found in the text before it is made: references are read after their marks. -/
def Marked (text : List Char) (s : Scanner) : Call α → Prop
  | .required => '$' :: s.pending <:+ text
  | .reference _ => ∃ mark ∈ referenceMarks, mark ++ s.pending <:+ text
  | .climb _ _ _ | .climbRight _ _ _ | .expr | .unary | .primary _ | .word _ | .listOrRange | .elements
  | .suffixes | .arguments | .moreArguments | .callArguments | .parameters => True

end Call

/-- Whether every call with certain fuel passes the references of what it gives, those that it is given
first. -/
def Passes (readInner : ReadInner) (n : Nat) (text : List Char) (resource : Option String) : Prop :=
  ∀ {α : Type} (c : Call α) (s t : Scanner), Passed text resource s c.given t → c.Marked text t →
    Gives (c.run readInner n) t fun a u => Passed text resource s (c.references a) u

end Scan

namespace Passed

open Scan (Call Passes Gives)

/-- Goes on after a call that is given nothing. -/
theorem call {readInner : ReadInner} {n : Nat} {α β : Type} {f : β → Scan α} {Φ : α → Scanner → Prop}
    (h : Passed text resource s es t) (hn : Passes readInner n text resource) (c : Call β)
    (hgiven : c.given = []) (hmarked : c.Marked text t)
    (hf : ∀ b u, Passed text resource s (es ++ c.references b) u → Gives (f b) u Φ) :
    Gives (c.run readInner n >>= f) t Φ :=
  .seq ((hn c t t (hgiven ▸ .refl h.inText) hmarked).mono fun b u hb => hf b u (h.trans hb))

end Passed

namespace Scan

variable {readInner : ReadInner} {n : Nat} {α β : Type}

/-- A reference stands where it is read, and its suffixes after it. -/
theorem passes_reference (hn : Passes readInner n text resource) {quiet : Bool}
    (h : InText text resource s) (hmark : ∃ mark ∈ referenceMarks, mark ++ s.pending <:+ text) :
    Gives (reference readInner (n + 1) quiet) s fun e t => Passed text resource s e.references t := by
  have hname : Gives (Scan.name "Reference") s fun x t => ∃ c cs, s.pending = c :: cs ++ t.pending ∧
      isLetter c = true ∧ (∀ d ∈ cs, isNameChar d = true) ∧
      (∀ d ∈ t.pending.head?, isNameChar d = false) ∧ t.slot = none ∧ x = String.ofList (c :: cs) :=
    .name fun c cs p hp hc hcs hhead t ht hslot => ⟨c, cs, ht ▸ hp, hc, hcs, ht ▸ hhead, hslot, rfl⟩
  have hquiet := (Passed.refl h).quiet (Course.name fun _ _ _ => trivial : Course readInner 0 0
    (Scan.name "Reference") s fun _ _ => True)
  refine .seq ((hquiet.and hname).mono ?_)
  rintro x t ⟨⟨ht, -⟩, c, cs, hp, hc, hcs, hhead, hslot, rfl⟩
  refine .seq (.here (.seq ((hn .suffixes t t (.refl ht.inText) trivial).mono fun ss u hss => .pure ?_)))
  obtain ⟨mark, hmark, before, hbefore⟩ := hmark
  have htext : text = before ++ mark ++ c :: cs ++ t.pending := by
    rw [← hbefore, hp]
    simp
  have hplace : t.place =
      ⟨resource, 1 + newlines (before ++ mark) + if t.pending.head? = some '\n' then 1 else 0⟩ := by
    rw [← ht.inText.line_after_name hslot hc hcs htext, ← ht.inText.resource]
    rfl
  have hstands : StandsBefore text resource (.reference t.place (String.ofList (c :: cs)) quiet ss) t.pending :=
    ⟨before ++ mark, c, cs, ⟨mark, hmark, before, rfl⟩, htext, rfl, hc, hcs, hhead, hplace⟩
  have hlt : t.pending.length < s.left := by
    simp only [Scanner.left, hp, List.length_append, List.length_cons]
    omega
  exact ⟨hss.inText, .cons hstands hlt hss.order⟩

/-- A reference inside an expression stands after its dollar sign and its marks. -/
theorem passes_required (hn : Passes readInner n text resource) (h : InText text resource s)
    (hdollar : '$' :: s.pending <:+ text) :
    Gives (required readInner (n + 1)) s fun e t => Passed text resource s e.references t := by
  have hreference (marks : List Char) {t : Scanner} (ht : Passed text resource s [] t)
      (hmarks : marks ∈ referenceMarks ∧ marks ++ ['{'] ∈ referenceMarks)
      (hsuffix : marks ++ t.pending <:+ text) :
      Gives (do
        if (← peek) = some '{' then
          skip
          let e ← reference readInner n false
          expect '}'
          return e
        else reference readInner n false) t fun e u => Passed text resource s e.references u := by
    refine .seq (.peek (.ite (fun hbrace => ?_) fun _ =>
      hn (.reference false) s t ht ⟨marks, hmarks.1, hsuffix⟩))
    have hbraced : marks ++ ['{'] ++ t.advance.pending <:+ text := by
      simpa [InText.pending_eq hbrace] using hsuffix
    refine .seq (.skip (ht.advance.call hn (.reference false) rfl ⟨_, hmarks.2, hbraced⟩ fun e u hu => ?_))
    exact hu.after (.expect fun _ _ => trivial) fun _ v hv => .pure hv
  refine .seq (.peek (.ite (fun hquiet => .seq (.skip ?_)) fun _ => ?_))
  · refine hreference ['$', '!'] (Passed.refl h).advance (by decide) ?_
    simpa [InText.pending_eq hquiet] using hdollar
  · exact hreference ['$'] (.refl h) (by decide) hdollar

theorem passes_expr (hn : Passes readInner n text resource) (h : InText text resource s) :
    Gives (expr readInner (n + 1)) s fun e t => Passed text resource s e.references t := by
  refine (Passed.refl h).call hn .unary rfl trivial fun lhs t ht => ?_
  refine ht.after (.operator fun _ _ _ => trivial) fun next u hu => ?_
  exact .seq ((hn (.climb lhs next 1) s u hu trivial).mono fun p v hv => .pure hv)

/-- The references of a right operand come after those of the left one. -/
theorem passes_climb (hn : Passes readInner n text resource) {lhs : Expr}
    (h : Passed text resource s lhs.references t) (next : Option Operator) (least : Nat) :
    Gives (climb readInner (n + 1) lhs next least) t fun p u => Passed text resource s p.1.references u := by
  cases next with
  | none => exact .pure h
  | some op =>
    refine .ite (fun _ => .pure h) fun _ => ?_
    refine (Passed.refl h.inText).call hn .unary rfl trivial fun rhs u hu => ?_
    refine hu.after (.operator fun _ _ _ => trivial) fun next v hv => ?_
    refine .seq ((hn (.climbRight rhs next op.precedence) t v hv trivial).mono fun p x hx => ?_)
    exact hn (.climb (.binary lhs op p.1) p.2 least) s x (h.trans hx) trivial

theorem passes_climbRight (hn : Passes readInner n text resource) {rhs : Expr}
    (h : Passed text resource s rhs.references t) (next : Option Operator) (bound : Nat) :
    Gives (climbRight readInner (n + 1) rhs next bound) t
      fun p u => Passed text resource s p.1.references u := by
  cases next with
  | none => exact .pure h
  | some op =>
    refine .ite (fun _ => .pure h) fun _ => ?_
    refine .seq ((hn (.climb rhs (some op) op.precedence) s t h trivial).mono fun p u hu => ?_)
    exact hn (.climbRight p.1 p.2 bound) s u hu trivial

theorem passes_unary (hn : Passes readInner n text resource) (h : InText text resource s) :
    Gives (unary readInner (n + 1)) s fun e t => Passed text resource s e.references t := by
  refine (Passed.refl h).after (.skipBlanks fun _ _ => trivial) fun _ t ht => .seq (.peek ?_)
  split
  · refine ht.after (.nextNonBlank fun _ _ => trivial) fun _ u hu => ?_
    refine hu.call hn .expr rfl trivial fun e v hv => ?_
    refine hv.after (.expect fun _ _ => trivial) fun _ x hx => ?_
    exact hx.after (.skipBlanks fun _ _ => trivial) fun _ y hy => .pure hy
  · refine .seq (.skip (.seq (.here (ht.advance.call hn .unary rfl trivial fun e u hu => ?_))))
    exact hu.after (.skipBlanks fun _ _ => trivial) fun _ v hv => .pure hv
  · exact hn (.primary false) s t ht trivial

/-- An integer holds no reference. -/
theorem gives_integer {negative : Bool} (s : Scanner) :
    Gives (integer negative) s fun e _ => e.references = [] :=
  .seq fun _ _ _ => .ite (fun _ => .fail) fun _ => .seq (.here (.pure rfl))

/-- A text literal holds no reference of the text around it. -/
theorem gives_text {quote : Quote} (s : Scanner) :
    Gives (Scan.text readInner quote) s fun e _ => e.references = [] := by
  refine .seq (.skip (.seq fun x t _ => .seq (.here ?_)))
  cases quote with
  | single => exact .pure rfl
  | double => exact .seq fun _ _ _ => .pure rfl

theorem passes_primary (hn : Passes readInner n text resource) (h : InText text resource s)
    (nullAllowed : Bool) : Gives (primary readInner (n + 1) nullAllowed) s
      fun e t => Passed text resource s e.references t := by
  refine (Passed.refl h).after (.skipBlanks fun _ _ => trivial) fun _ t ht => .seq (.peek ?_)
  -- the blanks after an operand
  have hend {x : Scan Expr} {u : Scanner}
      (hx : Gives x u fun e v => Passed text resource s e.references v) :
      Gives (do let e ← x; skipBlanks; return e) u fun e v => Passed text resource s e.references v :=
    .seq (hx.mono fun e v hv => hv.after (.skipBlanks fun _ _ => trivial) fun _ w hw => .pure hw)
  dsimp only
  split
  · refine .seq (.skip (hend (hn .required s t.advance ht.advance ?_)))
    rw [Call.Marked, ← InText.pending_eq ‹t.current = _›]
    exact ht.inText.suffix
  · have hpos := Scanner.left_pos ‹t.current = _›
    exact hend (ht.plain readInner (.text hpos (by omega) fun _ _ _ => trivial) (gives_text t))
  · have hpos := Scanner.left_pos ‹t.current = _›
    exact hend (ht.plain readInner (.text hpos (by omega) fun _ _ _ => trivial) (gives_text t))
  · exact .seq (.skip (hend (ht.advance.plain readInner (.integer fun _ _ _ => trivial) (gives_integer t.advance))))
  · exact hend (hn .listOrRange s t ht trivial)
  · exact .ite (fun _ => hend (ht.plain readInner (.integer fun _ _ _ => trivial) (gives_integer t))) fun _ =>
      .ite (fun _ => hend (hn (.word nullAllowed) s t ht trivial)) fun _ => hend .fail
  · exact hend .fail

theorem passes_word (hn : Passes readInner n text resource) (h : InText text resource s)
    (nullAllowed : Bool) : Gives (word readInner (n + 1) nullAllowed) s
      fun e t => Passed text resource s e.references t := by
  refine (Passed.refl h).after (.name fun _ _ _ => trivial) fun x t ht => ?_
  have hliteral {v : Literal} : Gives (do return Expr.literal (← here) v) t
      fun e u => Passed text resource s e.references u :=
    .seq (.here (.pure ht))
  refine .ite (fun _ => hliteral) fun _ => .ite (fun _ => hliteral) fun _ => .ite (fun _ => ?_) fun _ =>
    .ite (fun _ => hliteral) fun _ => .fail
  exact .seq (.here (ht.call hn .unary rfl trivial fun e u hu => .pure hu))

theorem passes_listOrRange (hn : Passes readInner n text resource) (h : InText text resource s) :
    Gives (listOrRange readInner (n + 1)) s fun e t => Passed text resource s e.references t := by
  refine (Passed.refl h).after (.nextNonBlank fun _ _ => trivial) fun _ t ht => .seq (.peek ?_)
  refine .ite (fun _ => .seq (.skip (.seq (.here (.pure ht.advance))))) fun _ => ?_
  refine ht.call hn (.primary false) rfl trivial fun first u hu => .seq (.peek (.ite (fun _ => ?_) fun _ => ?_))
  · refine .seq (.skip (.seq (.peek (.ite (fun _ => .seq .fail) fun _ => ?_))))
    refine hu.advance.after (.nextNonBlank fun _ _ => trivial) fun _ v hv => ?_
    refine hv.call hn (.primary false) rfl trivial fun last x hx => ?_
    refine .seq (.peek (.ite (fun _ => .seq .fail) fun _ => ?_))
    exact hx.after (.nextNonBlank fun _ _ => trivial) fun _ y hy => .seq (.here (.pure hy))
  · refine hu.call hn .elements rfl trivial fun others v hv => ?_
    exact .seq (.peek (.ite (fun _ => .seq .fail) fun _ => .seq (.skip (.seq (.here (.pure hv.advance))))))

theorem passes_elements (hn : Passes readInner n text resource) (h : InText text resource s) :
    Gives (elements readInner (n + 1)) s fun es t => Passed text resource s (exprsReferences es) t := by
  refine .seq (.peek (.ite (fun _ => .seq (.skip ?_)) fun _ => .pure (.refl h)))
  refine (Passed.refl h).advance.call hn (.primary false) rfl trivial fun e t ht => ?_
  exact ht.call hn .elements rfl trivial fun es u hu => .pure hu

/-- The references in the arguments of a method and in an index come before those of the suffixes after. -/
theorem passes_suffixes (hn : Passes readInner n text resource) (h : InText text resource s) :
    Gives (suffixes readInner (n + 1)) s fun ss t => Passed text resource s (suffixesReferences ss) t := by
  have hmore {t : Scanner} {x : Suffix} (ht : Passed text resource s x.references t) :
      Gives (do return x :: (← suffixes readInner n)) t
        fun ss u => Passed text resource s (suffixesReferences ss) u :=
    ht.call hn .suffixes rfl trivial fun ss u hu => .pure hu
  refine .seq (.peek ?_)
  split
  · refine .seq (.skip (.seq (.sees (.ite (fun _ => ?_) fun _ => .seq (.putBack (.pure ?_))))))
    · refine (Passed.refl h).advance.after (.name fun _ _ _ => trivial) fun m t ht => .seq (.peek ?_)
      refine .ite (fun _ => .seq (.map ?_)) fun _ => .seq (.pure (hmore ht))
      exact (hn .arguments s t ht trivial).mono fun args u hu => hmore hu
    · obtain ⟨hin, hle⟩ := h.after (.period ‹s.current = some '.'› .nil)
      exact (Passed.refl h).on hin hle
  · refine .seq (.skip ((Passed.refl h).advance.call hn (.primary false) rfl trivial fun key t ht => ?_))
    exact .seq (.peek (.ite (fun _ => .seq .fail) fun _ => .seq (.skip (hmore ht.advance))))
  · exact .pure (.refl h)

theorem passes_arguments (hn : Passes readInner n text resource) (h : InText text resource s) :
    Gives (arguments readInner (n + 1)) s fun es t => Passed text resource s (exprsReferences es) t := by
  refine (Passed.refl h).after (.nextNonBlank fun _ _ => trivial) fun _ t ht => .seq (.peek ?_)
  refine .ite (fun _ => .seq (.skip (.pure ht.advance))) fun _ => ?_
  refine ht.call hn (.primary true) rfl trivial fun first u hu => ?_
  refine hu.call hn .moreArguments rfl trivial fun others v hv => ?_
  exact .seq (.peek (.ite (fun _ => .seq .fail) fun _ => .seq (.skip (.pure hv.advance))))

theorem passes_moreArguments (hn : Passes readInner n text resource) (h : InText text resource s) :
    Gives (moreArguments readInner (n + 1)) s
      fun es t => Passed text resource s (exprsReferences es) t := by
  refine .seq (.peek (.ite (fun _ => ?_) fun _ => .pure (.refl h)))
  refine (Passed.refl h).after (.nextNonBlank fun _ _ => trivial) fun _ t ht => ?_
  refine ht.call hn (.primary true) rfl trivial fun e u hu => ?_
  exact hu.call hn .moreArguments rfl trivial fun es v hv => .pure hv

theorem passes_callArguments (hn : Passes readInner n text resource) (h : InText text resource s) :
    Gives (callArguments readInner (n + 1)) s
      fun es t => Passed text resource s (exprsReferences es) t := by
  refine (Passed.refl h).after (.skipBlanks fun _ _ => trivial) fun _ t ht => .seq (.peek ?_)
  refine .ite (fun _ => .seq (.skip (.pure ht.advance))) fun _ => ?_
  have hmore {e : Expr} {u : Scanner} (hu : Passed text resource s e.references u) :
      Gives (do return e :: (← callArguments readInner n)) u
        fun es v => Passed text resource s (exprsReferences es) v :=
    hu.call hn .callArguments rfl trivial fun es v hv => .pure hv
  refine ht.call hn (.primary false) rfl trivial fun e u hu => .seq (.peek ?_)
  exact .ite (fun _ => .seq (.skip (hmore hu.advance))) fun _ => hmore hu

theorem passes_parameters (h : InText text resource s) :
    Gives (parameters (n + 1)) s fun _ t => Passed text resource s [] t :=
  ((Passed.refl h).quiet (@course_parameters (fun _ _ => .error .exhausted) n s)).mono fun _ _ ht => ht.1

/-- The readers pass the references of what they give, in the order of the text. -/
theorem passes (readInner : ReadInner) (n : Nat) (text : List Char) (resource : Option String) :
    Passes readInner n text resource := by
  induction n with
  | zero =>
    intro α c s t hs hmarked a u h
    cases c <;> cases h
  | succ n hn =>
    intro α c s t hs hmarked
    -- what was passed before a call is nothing, unless the call goes on from it
    have hfrom {x : Scan α} {es : α → List Expr} (hgiven : c.given = [])
        (hx : Gives x t fun a u => Passed text resource t (es a) u) :
        Gives x t fun a u => Passed text resource s (es a) u :=
      hx.mono fun a u hu => (hgiven ▸ hs).trans hu
    cases c with
    | climb lhs next least => exact passes_climb hn hs next least
    | climbRight rhs next bound => exact passes_climbRight hn hs next bound
    | expr => exact hfrom rfl (passes_expr hn hs.inText)
    | unary => exact hfrom rfl (passes_unary hn hs.inText)
    | primary nullAllowed => exact hfrom rfl (passes_primary hn hs.inText nullAllowed)
    | word nullAllowed => exact hfrom rfl (passes_word hn hs.inText nullAllowed)
    | listOrRange => exact hfrom rfl (passes_listOrRange hn hs.inText)
    | elements => exact hfrom rfl (passes_elements hn hs.inText)
    | required => exact hfrom rfl (passes_required hn hs.inText hmarked)
    | reference quiet => exact hfrom rfl (passes_reference hn hs.inText hmarked)
    | suffixes => exact hfrom rfl (passes_suffixes hn hs.inText)
    | arguments => exact hfrom rfl (passes_arguments hn hs.inText)
    | moreArguments => exact hfrom rfl (passes_moreArguments hn hs.inText)
    | callArguments => exact hfrom rfl (passes_callArguments hn hs.inText)
    | parameters => exact hfrom rfl (passes_parameters hs.inText)

end Scan

end Stencil
