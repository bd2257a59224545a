import Stencil.Proofs.Blocks
import Stencil.Proofs.DocumentAlike
import Stencil.Proofs.ReadBack

/-!
# Reading a text that is assigned as a literal

The template that assigns a text, written between double quotes, to a variable and writes the variable out:
if the text has neither a double quote nor a backslash, it is read as an assignment of the literal, whose
inside is the text as the reader of insides reads it, and a reference: `read_assigned`.
-/

namespace Stencil

open Stencil.Text Scan

/-- The template that assigns a text to a variable as a literal, and writes the variable out. -/
def assignedText (text : String) : String :=
  "#set($r = \"" ++ text ++ "\")$r"

theorem chars_assignedText (text : String) :
    unifyNewlines (assignedText text).toList =
      '#' :: ("set".toList ++ '(' :: '$' :: ("r".toList ++ ' ' :: '=' :: ' ' :: '"' ::
        (unifyNewlines text.toList ++ '"' :: ')' :: '$' :: "r".toList))) := by
  rw [assignedText, String.append_assoc, String.toList_append,
    unifyNewlines_append_of_no_return (by decide), String.toList_append,
    show "\")$r".toList = '"' :: [')', '$', 'r'] from rfl, unifyNewlines_append_cons (by decide)]
  rfl

namespace Read

variable {α β : Type} {p : List Char} {Φ : α → List Char → Prop}

/-- Whether reading nodes from the characters `p` ends with a result and remaining characters that satisfy
`Φ`, and defines no macro. -/
def Takes (x : Read α) (p : List Char) (Φ : α → List Char → Prop) : Prop :=
  ∀ r : Reader, r.scanner.pending = p →
    ∃ a s', x r = .ok a { r with scanner := s' } ∧ Φ a s'.pending

theorem Takes.pure {a : α} (h : Φ a p) : Takes (Pure.pure a) p Φ := by
  rintro r rfl
  exact ⟨a, r.scanner, rfl, h⟩

theorem Takes.bind {x : Read β} {f : β → Read α} (h : Takes x p fun b q => Takes (f b) q Φ) :
    Takes (x >>= f) p Φ := by
  intro r hr
  obtain ⟨b, s₁, hx, hf⟩ := h r hr
  obtain ⟨a, s₂, hfb, ha⟩ := hf { r with scanner := s₁ } rfl
  refine ⟨a, s₂, ?_, ha⟩
  show EStateM.bind x f r = _
  rw [EStateM.bind, hx]
  exact hfb

theorem Takes.scan {x : Scan α} (h : Scan.Reads x p Φ fun _ => False) : Takes (Read.scan x) p Φ := by
  intro r hr
  have hx := h r.scanner hr
  rw [Read.scan]
  split at hx
  · rename_i a s' ha
    rw [ha]
    exact ⟨a, s', rfl, hx⟩
  · exact hx.elim
  · exact hx.elim

end Read

variable {readInner : ReadInner} {n : Nat}

/-- A text between double quotes is read as a literal. -/
theorem reads_literal {u k : List Char} (hquote : '"' ∉ u) (hslash : '\\' ∉ u)
    {Φ : Expr → List Char → Prop} {E : ParseError → Prop}
    (h : ∀ p : Place, ∃ ns, readInner s!"string {p.text}" (String.ofList u) = .ok ns ∧
      Φ (.text p .double ns) k) :
    Scan.Reads (text readInner .double) ('"' :: (u ++ '"' :: k)) Φ E := by
  have hspan := span_append (c := fun c => c != '"' && c != '\\') (l := u) (k := '"' :: k)
    (fun c hc => by
      have h₁ : c ≠ '"' := fun he => hquote (he ▸ hc)
      have h₂ : c ≠ '\\' := fun he => hslash (he ▸ hc)
      simp [h₁, h₂])
    (by rintro _ ⟨⟩; decide)
  refine .bind (.skip (.bind (.bind (.takeWhile ?_))))
  simp only [List.tail_cons, Quote.char]
  rw [hspan.1, hspan.2]
  refine .bind (.peek (.bind (.skip (.pure ?_))))
  refine .bind (.here fun p => ?_)
  obtain ⟨ns, hns, hΦ⟩ := h p
  show Scan.Reads (do return .text p .double (← inner (readInner s!"string {p.text}" (String.ofList u)))) _ Φ E
  rw [hns]
  exact .bind (.pure (.pure hΦ))

/-- A literal between parentheses is read as an expression. -/
theorem reads_literal_expr {u k : List Char} (hquote : '"' ∉ u) (hslash : '\\' ∉ u)
    {Φ : Expr → List Char → Prop} {E : ParseError → Prop}
    (h : ∀ p : Place, ∃ ns, readInner s!"string {p.text}" (String.ofList u) = .ok ns ∧
      Φ (.text p .double ns) (')' :: k)) :
    Scan.Reads (expr readInner (n + 3)) (' ' :: '"' :: (u ++ '"' :: ')' :: k)) Φ E := by
  have hend : (')' :: k).dropWhile isBlank = ')' :: k := List.dropWhile_cons_of_neg (by decide)
  rw [expr, unary, primary]
  refine .bind (.bind (.skipBlanks (.bind (.peek (.bind (.skipBlanks (.bind (.peek ?_))))))))
  refine Expr.reads_then_skipBlanks (reads_literal hquote hslash fun p => ?_)
  obtain ⟨ns, hns, hΦ⟩ := h p
  refine ⟨ns, hns, ?_⟩
  rw [hend]
  refine .bind (.noOperator (.inr ⟨k, hend⟩) ?_)
  rw [hend, climb]
  exact .bind (.pure (.pure hΦ))

theorem takes_assignment {u k : List Char} (hquote : '"' ∉ u) (hslash : '\\' ∉ u)
    {Φ : Item → List Char → Prop} (hk : k.head? ≠ some '\n')
    (h : ∀ p : Place, ∃ ns, readInner s!"string {p.text}" (String.ofList u) = .ok ns ∧
      Φ (.node (.assign "r" (.text p .double ns))) k) :
    Read.Takes (Read.item readInner (n + 5))
      ('#' :: ("set".toList ++ '(' :: '$' :: ("r".toList ++ ' ' :: '=' :: ' ' :: '"' ::
        (u ++ '"' :: ')' :: k)))) Φ := by
  have hset : IsName "set" := isName_ofList rfl rfl
  have hr : IsName "r" := isName_ofList rfl rfl
  rw [Read.item]
  refine .bind (.scan (.peek (.bind (.scan (.skip (.bind (.scan (.peek ?_))))))))
  show Read.Takes (if isLetter 's' then _ else _) _ Φ
  rw [if_pos (by decide), Read.directive]
  have hname : ∀ {q : List Char} {Ψ : String → List Char → Prop} {E : ParseError → Prop},
      Ψ "set" ('(' :: q) → Scan.Reads directiveName ("set".toList ++ '(' :: q) Ψ E := fun hΨ =>
    .bind (.peek (reads_name hset (by rintro _ ⟨⟩; decide) hΨ))
  refine .bind (.scan (hname ?_))
  show Read.Takes (do
    let x ← assignment readInner (n + 3)
    skipNewline
    return .node x) _ Φ
  refine .bind (.scan ?_)
  refine .bind (.expect (c := '(') (List.dropWhile_cons_of_neg (by decide)) ?_)
  refine .bind (.expect (c := '$') (List.dropWhile_cons_of_neg (by decide)) ?_)
  refine .bind (reads_name hr (by rintro _ ⟨⟩; decide) ?_)
  refine .bind (.expect (c := '=') (q := ' ' :: '"' :: (u ++ '"' :: ')' :: k)) rfl ?_)
  refine .bind (reads_literal_expr hquote hslash fun p => ?_)
  obtain ⟨ns, hns, hΦ⟩ := h p
  refine ⟨ns, hns, .bind (.expect (c := ')') (q := k) (List.dropWhile_cons_of_neg (by decide)) (.pure ?_))⟩
  refine .bind (.scan (.skipNewline ?_))
  have hdrop : dropNewline k = k := by
    cases k with
    | nil => rfl
    | cons c k =>
      have hc : c ≠ '\n' := fun hc => hk (congrArg some hc)
      simp [dropNewline, hc]
  rw [hdrop]
  exact .pure hΦ

/-- A variable at the end of a text is read as a reference. -/
theorem takes_variable {Φ : Item → List Char → Prop}
    (h : ∀ p : Place, Φ (.node (.output (.reference p "r" false []))) []) :
    Read.Takes (Read.item readInner (n + 3)) ('$' :: "r".toList) Φ := by
  have hr : IsName "r" := isName_ofList rfl rfl
  have hname : ∀ {Ψ : String → List Char → Prop} {E : ParseError → Prop},
      Ψ "r" [] → Scan.Reads (name "Reference") "r".toList Ψ E := fun hΨ => by
    rw [← List.append_nil "r".toList]
    exact reads_name hr (by rintro _ ⟨⟩) hΨ
  have hreference : ∀ {Ψ : Expr → List Char → Prop} {E : ParseError → Prop},
      (∀ p, Ψ (.reference p "r" false []) []) →
        Scan.Reads (reference readInner (n + 2) false) "r".toList Ψ E := fun hΨ => by
    rw [reference]
    exact .bind (hname (.bind (.here fun p => .map (reads_noSuffix .endOfText (hΨ p)))))
  rw [Read.item]
  refine .bind (.scan (.peek (.bind (.scan ?_))))
  rw [dollar]
  refine .bind (.skip (.bind (.peek ?_)))
  refine .bind (.peek ?_)
  refine .bind (.sees ?_)
  exact .bind (hreference fun p => .pure (.pure (h p)))

/-- The template that assigns a text is read as the assignment of a literal and a reference, and defines no
macro. -/
theorem takes_assigned {u : List Char} (hquote : '"' ∉ u) (hslash : '\\' ∉ u) {Φ : List Node → Prop}
    (h : ∀ p : Place, ∃ ns, readInner s!"string {p.text}" (String.ofList u) = .ok ns ∧
      ∀ q, Φ [.assign "r" (.text p .double ns), .output (.reference q "r" false [])]) :
    Read.Takes (Read.document readInner (n + 7))
      ('#' :: ("set".toList ++ '(' :: '$' :: ("r".toList ++ ' ' :: '=' :: ' ' :: '"' ::
        (u ++ '"' :: ')' :: '$' :: "r".toList)))) fun body _ => Φ body := by
  rw [Read.document, Read.nodes]
  refine .bind (.bind (takes_assignment hquote hslash (by decide) fun p => ?_))
  obtain ⟨ns, hns, hΦ⟩ := h p
  refine ⟨ns, hns, ?_⟩
  show Read.Takes (Read.nodes readInner (n + 6) [.assign "r" (.text p .double ns)]) _ _
  rw [Read.nodes]
  refine .bind (takes_variable fun q => ?_)
  show Read.Takes (Read.nodes readInner (n + 5)
    [.output (.reference q "r" false []), .assign "r" (.text p .double ns)]) _ _
  rw [Read.nodes, Read.item]
  refine .bind (.bind (.scan (.peek (.pure (.pure ?_)))))
  exact .bind (.scan (.pure (.pure (hΦ q))))

theorem readInside_unifyNewlines (name text : String) :
    Document.readInside name (String.ofList (unifyNewlines text.toList)) = Document.readInside name text := by
  have hofText : ∀ r, Scanner.ofText (String.ofList (unifyNewlines text.toList)) r = Scanner.ofText text r :=
    fun r => by
      rw [Scanner.ofText, Scanner.ofText, String.toList_ofList,
        unifyNewlines_of_no_return (return_not_mem_unifyNewlines _)]
  rw [Document.readInside, Document.readInside, Document.readWith, Document.readWith, hofText]

/-- A text that is read by itself, and has neither a double quote nor a backslash, is read alike as the inside
of a literal that is assigned and written out. -/
theorem read_assigned {text : String} (hquote : '"' ∉ text.toList) (hslash : '\\' ∉ text.toList)
    {r : Option String} {d : Document} (h : Document.read r text = .ok d) (outer : Option String) :
    ∃ e : Document, Document.read outer (assignedText text) = .ok e ∧ e.macros = [] ∧
      ∃ p q ns, e.nodes = [.assign "r" (.text p .double ns), .output (.reference q "r" false [])] ∧
        LikeNodes false d.nodes ns := by
  have hinside : ∀ name, ∃ ns, Document.readInside name (String.ofList (unifyNewlines text.toList)) = .ok ns ∧
      LikeNodes false d.nodes ns := fun name => by
    have hread := Document.likeRead_readInside hquote r name
    rw [h] at hread
    rw [readInside_unifyNewlines]
    generalize Document.readInside name text = x at hread
    cases hread with
    | ok hns => exact ⟨_, rfl, hns⟩
  have hmem : ∀ {c : Char}, c ≠ '\n' → c ∉ text.toList → c ∉ unifyNewlines text.toList := fun hc hnot hin =>
    hnot (mem_of_mem_unifyNewlines hc hin)
  have hpending := (Scanner.pending_ofText (assignedText text) outer).trans (chars_assignedText text)
  obtain ⟨n, hn⟩ : ∃ n, Document.fuelFor (Scanner.ofText (assignedText text) outer) = n + 7 :=
    ⟨8 * (Scanner.ofText (assignedText text) outer).pending.length + 9, rfl⟩
  have htakes : Read.Takes (Read.document Document.readInside (n + 7)) _ fun body _ => ∃ p q ns,
      body = [.assign "r" (.text p .double ns), .output (.reference q "r" false [])] ∧
        LikeNodes false d.nodes ns :=
    takes_assigned (hmem (by decide) hquote) (hmem (by decide) hslash) fun p =>
      (hinside _).imp fun ns hns => ⟨hns.1, fun q => ⟨p, q, ns, rfl, hns.2⟩⟩
  obtain ⟨body, s', hdocument, p, q, ns, hbody, hns⟩ :=
    htakes ⟨Scanner.ofText (assignedText text) outer, []⟩ hpending
  refine ⟨⟨s'.place, body, []⟩, ?_, rfl, p, q, ns, hbody, hns⟩
  rw [Document.read, Document.readWith, hn, hdocument]

end Stencil
