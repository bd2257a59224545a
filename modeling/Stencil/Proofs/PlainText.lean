import Stencil.Proofs.Inert
import Stencil.Proofs.Rendering

/-!
# Plain text

A text whose markers are all inert is read as nodes of text, which hold the text piece by piece, and so it
is rendered as it is: `Template.plain_text`. Each piece begins with what was read before it was clear that
a marker means nothing, and goes on to the next marker.
-/

namespace Stencil

open Stencil.Text

/-- Whether a character is no marker. -/
def isPlain (c : Char) : Bool :=
  c != '$' && c != '#'

/-- Whether a node is a text that takes the first characters up to the second, where a marker stands or
nothing. -/
def TakesText (p : List Char) (x : Node) (q : List Char) : Prop :=
  ∃ place u, x = .text place (String.ofList u) ∧ p = u ++ q ∧ u ≠ [] ∧ ∀ c ∈ q.head?, isPlain c = false

/-- Whether an item is such a node. -/
def TakesItem (p : List Char) (x : Item) (q : List Char) : Prop :=
  ∃ y, x = .node y ∧ TakesText p y q

variable {readInner : ReadInner} {n : Nat} {p q : List Char} {E : ParseError → Prop}

namespace Scan

theorem reads_plainText {start : List Char} (hstart : start ≠ []) (hp : p = start ++ q) :
    Reads (plainText start) q (TakesText p) E := by
  refine .bind (.takeWhile (.bind (.here fun place => .pure ?_)))
  refine ⟨place, start ++ q.takeWhile isPlain, rfl, ?_, by simp [hstart], fun c hc => ?_⟩
  · rw [hp, List.append_assoc]
    exact congrArg _ List.takeWhile_append_dropWhile.symm
  · have hhead := List.head?_dropWhile_not isPlain q
    have hc : (q.dropWhile isPlain).head? = some c := hc
    rw [hc] at hhead
    simpa using hhead

/-- A dollar sign that means nothing is text with what follows it. -/
theorem reads_inert_dollar (h : beginsReference q = false) :
    Reads (dollar readInner n) ('$' :: q) (TakesText ('$' :: q)) E := by
  refine .bind (.skip (.bind (.peek ?_)))
  -- an exclamation mark and a brace are taken before the letter is missed
  have hrest {quiet : Bool} {start q' : List Char} (hstart : start ≠ []) (hq : '$' :: q = start ++ q')
      (hletter : (dropOptional '{' q').head?.any isLetter = false) : Reads
        (do
          if (← peek) = some '{' then
            skip
            if ← sees isLetter then
              let e ← reference readInner n quiet
              expect '}'
              return .output e
            else plainText (start ++ ['{'])
          else if ← sees isLetter then
            return .output (← reference readInner n quiet)
          else plainText start) q' (TakesText ('$' :: q)) E := by
    refine .bind (.peek ?_)
    split
    · rename_i hbrace
      obtain ⟨cs, rfl⟩ := List.head?_eq_some_iff.1 hbrace
      rw [dropOptional_cons] at hletter
      refine .bind (.skip (.bind (.sees ?_)))
      rw [List.tail_cons, hletter, if_neg (by decide)]
      exact reads_plainText (by simp) (by simp [hq])
    · rename_i hbrace
      rw [dropOptional_of_ne hbrace] at hletter
      refine .bind (.sees ?_)
      rw [hletter, if_neg (by decide)]
      exact reads_plainText hstart hq
  rw [List.tail_cons]
  rw [beginsReference] at h
  dsimp only
  by_cases hmark : q.head? = some '!'
  · obtain ⟨cs, rfl⟩ := List.head?_eq_some_iff.1 hmark
    rw [dropOptional_cons] at h
    simp only [if_pos hmark]
    exact .bind (.skip (hrest (by simp) rfl h))
  · rw [dropOptional_of_ne hmark] at h
    simp only [if_neg hmark]
    exact hrest (by simp) rfl h

/-- A bracket after a hash sign that another one does not follow is text. -/
theorem reads_inert_verbatim (h : q.head? ≠ some '[') :
    Reads verbatim ('[' :: q) (TakesText ('#' :: '[' :: q)) E := by
  refine .bind (.skip (.bind (.peek ?_)))
  rw [List.tail_cons, if_neg h]
  exact reads_plainText (by simp) rfl

end Scan

theorem isSome_dropPart? (ps cs : List Char) : (dropPart? ps cs).isSome = ps.isPrefixOf cs := by
  fun_induction dropPart? ps cs with
  | case1 => rfl
  | case2 => rfl
  | case3 p ps cs ih => simp [ih]
  | case4 p ps c cs hne =>
    rw [List.isPrefixOf, beq_false_of_ne hne]
    rfl

namespace Read

open Scan hiding exhausted

theorem Takes.mono {α : Type} {x : Read α} {Φ Ψ : α → List Char → Prop} (h : Takes x p Φ)
    (hΦ : ∀ a q, Φ a q → Ψ a q) : Takes x p Ψ := by
  intro r hr
  obtain ⟨a, s', hx, ha⟩ := h r hr
  exact ⟨a, s', hx, hΦ a _ ha⟩

/-- A name that means no more is text, with the blanks after it and what follows them. -/
theorem takes_inert_name {hasBody : Bool} {x : String}
    (h : meansMore hasBody x ((q.dropWhile isBlank).head? == some '(') = false)
    (hp : p = (if hasBody then ['#', '@'] else ['#']) ++ x.toList ++ q) :
    Takes (macroCall readInner (n + 1) hasBody x) q (TakesText p) := by
  simp only [meansMore, Bool.or_eq_false_iff] at h
  obtain ⟨⟨⟨hsupported, hend⟩, -⟩, hopen⟩ := h
  have hend : ['e', 'n', 'd'].isPrefixOf x.toList = false := hend
  refine .bind (.scan (.here fun place => .bind (.scan (.takeWhile (.bind (.scan (.peek ?_)))))))
  rw [if_neg (by simpa using hopen), if_neg (by simpa using hsupported), isSome_dropPart?,
    if_neg (ne_true_of_eq_false hend)]
  refine .scan (reads_plainText ?_ ?_)
  · split <;> simp
  · rw [hp, List.append_assoc (_ ++ _), List.takeWhile_append_dropWhile]

/-- A name after a hash sign that means no more is read as a directive that is none: where its text ends
there is no line feed to take. -/
theorem takes_inert_directive {c : Char} {cs : List Char} (hc : isLetter c = true)
    (h : beginsDirective false (c :: cs) = false) :
    Takes (directive readInner (n + 2)) (c :: cs) (TakesItem ('#' :: c :: cs)) := by
  have hbrace : c ≠ '{' := by
    rintro rfl
    cases hc
  have hname : ∀ {Φ : String → List Char → Prop}, Φ (String.ofList ((c :: cs).takeWhile isNameChar))
      ((c :: cs).dropWhile isNameChar) → Scan.Reads directiveName (c :: cs) Φ fun _ => False := fun hΦ => by
    refine .bind (.peek ?_)
    rw [List.head?_cons, if_neg fun he => hbrace (Option.some.inj he)]
    exact .name hc hΦ
  rw [beginsDirective, List.head?_cons, Option.any_some, hc, Bool.true_and] at h
  have hcall : Takes (macroCall readInner (n + 1) false (String.ofList ((c :: cs).takeWhile isNameChar)))
      ((c :: cs).dropWhile isNameChar) (TakesText ('#' :: c :: cs)) := by
    refine takes_inert_name h ?_
    rw [String.toList_ofList, List.append_assoc, List.takeWhile_append_dropWhile]
    rfl
  have hmore := h
  simp only [meansMore, Bool.or_eq_false_iff, Bool.not_false, Bool.true_and] at hmore
  obtain ⟨⟨-, hkeyword⟩, -⟩ := hmore
  refine .bind (.scan (hname ?_))
  split
  case h_12 =>
    refine .bind (hcall.mono fun y q' hy => ?_)
    obtain ⟨place, u, hu, hp, hne, hmarker⟩ := hy
    have hdrop : dropNewline q' = q' := by
      cases q' with
      | nil => rfl
      | cons d ds =>
        have hd : d ≠ '\n' := by
          rintro rfl
          cases hmarker _ rfl
        simp [dropNewline, hd]
    refine .bind (.scan (.skipNewline ?_))
    rw [hdrop]
    exact .pure ⟨y, rfl, place, u, hu, hp, hne, hmarker⟩
  all_goals
    rename_i hd
    rw [hd] at hkeyword
    exact absurd hkeyword (by decide)

theorem takes_inert_hash (h : beginsMarkup q = false) :
    Takes (item readInner (n + 3)) ('#' :: q) (TakesItem ('#' :: q)) := by
  have hnode {x : Scan Node} {q' : List Char}
      (hx : Scan.Reads x q' (TakesText ('#' :: q)) fun _ => False) :
      Takes (do return Item.node (← x)) q' (TakesItem ('#' :: q)) :=
    .bind (.scan (hx.mono (fun y q'' hy => .pure ⟨y, rfl, hy⟩) fun _ he => he))
  refine .bind (.scan (.peek (.bind (.scan (.skip (.bind (.scan (.peek ?_))))))))
  rw [List.tail_cons]
  cases q with
  | nil => exact hnode (reads_plainText (by simp) rfl)
  | cons c cs =>
    rw [beginsMarkup] at h
    rw [List.head?_cons]
    split
    · cases Option.some.inj ‹_›
      cases h
    · cases Option.some.inj ‹_›
      cases h
    · cases Option.some.inj ‹_›
      exact hnode (reads_inert_verbatim (by simpa using h))
    · cases Option.some.inj ‹_›
      cases h
    · cases Option.some.inj ‹_›
      have h : beginsDirective true cs = false := h
      refine .bind (.scan (.skip (.bind (.scan (.sees ?_)))))
      rw [List.tail_cons]
      split
      · rename_i hletter
        rw [beginsDirective, hletter, Bool.true_and] at h
        obtain ⟨d, ds, rfl⟩ : ∃ d ds, cs = d :: ds := by
          cases cs with
          | nil => cases hletter
          | cons d ds => exact ⟨d, ds, rfl⟩
        have hcall : Takes (macroCall readInner (n + 2) true (String.ofList ((d :: ds).takeWhile isNameChar)))
            ((d :: ds).dropWhile isNameChar) (TakesText ('#' :: '@' :: d :: ds)) := by
          refine takes_inert_name h ?_
          rw [String.toList_ofList, List.append_assoc, List.takeWhile_append_dropWhile]
          rfl
        refine .bind (.scan (.name (by simpa using hletter) ?_))
        exact .bind (hcall.mono fun y q' hy => .pure ⟨y, rfl, hy⟩)
      · exact hnode (reads_plainText (by simp) rfl)
    · rename_i d hhash hstar hbracket hbrace hat hd
      cases Option.some.inj hd
      split
      · rename_i hletter
        refine takes_inert_directive hletter ?_
        rwa [if_neg (by simp_all), if_neg (by simp_all), if_neg (by simp_all)] at h
      · exact hnode (reads_plainText (by simp) rfl)
    · cases ‹some c = none›

/-- At an inert text there is a node of text or nothing. -/
theorem takes_inert_item {c : Char} {cs : List Char} (h : inertAt (c :: cs) = true) :
    Takes (item readInner (n + 3)) (c :: cs) (TakesItem (c :: cs)) := by
  rw [inertAt] at h
  by_cases hdollar : c = '$'
  · subst hdollar
    have hread : Scan.Reads (dollar readInner (n + 2)) ('$' :: cs) (TakesText ('$' :: cs)) fun _ => False :=
      reads_inert_dollar (by simpa using h)
    refine .bind (.scan (.peek (.bind (.scan (hread.mono (fun y q hy => .pure ⟨y, rfl, hy⟩) fun _ he => he)))))
  · by_cases hhash : c = '#'
    · subst hhash
      exact takes_inert_hash (by simpa using h)
    · refine .bind (.scan (.peek ?_))
      rw [List.head?_cons]
      split
      · cases ‹some c = none›
      · exact absurd (Option.some.inj ‹_›) hhash
      · exact absurd (Option.some.inj ‹_›) hdollar
      · rename_i d _ _ hd
        cases Option.some.inj hd
        have hread : Scan.Reads (plainText [c]) cs (TakesText (c :: cs)) fun _ => False :=
          reads_plainText (by simp) rfl
        exact .bind (.scan (.skip (.bind (.scan (hread.mono (fun y q hy => .pure ⟨y, rfl, hy⟩) fun _ he => he)))))

end Read

/-- Whether nodes are texts that hold the characters, piece by piece. -/
inductive Spells : List Node → List Char → Prop
  | nil : Spells [] []
  | cons {ns : List Node} {cs : List Char} (place : Place) (u : List Char) (h : Spells ns cs) :
      Spells (.text place (String.ofList u) :: ns) (u ++ cs)

namespace Read

/-- An inert text is read as texts that hold it. Each node takes a character at least, so the fuel lasts. -/
theorem takes_inert_nodes (h : Inert p) (hn : p.length ≤ n) (done : List Node) :
    Takes (nodes readInner (n + 5) done) p fun r _ =>
      r.2 = .endOfText ∧ ∃ ns, r.1 = done.reverse ++ ns ∧ Spells ns p := by
  induction n generalizing p done with
  | zero =>
    obtain rfl := List.length_eq_zero_iff.1 (Nat.le_zero.1 hn)
    refine .bind (.bind (.scan (.peek (.pure (.pure ⟨rfl, [], ?_, .nil⟩)))))
    rw [List.append_nil]
  | succ n ih =>
    cases p with
    | nil =>
      refine .bind (.bind (.scan (.peek (.pure (.pure ⟨rfl, [], ?_, .nil⟩)))))
      rw [List.append_nil]
    | cons c cs =>
      refine .bind ((takes_inert_item (h _ (List.suffix_refl _))).mono ?_)
      rintro _ q ⟨_, rfl, place, u, rfl, hp, hne, -⟩
      have hlength := congrArg List.length hp
      rw [List.length_append] at hlength
      have hpositive := List.length_pos_of_ne_nil hne
      have hrest := ih (p := q) (h.suffix ⟨u, hp.symm⟩) (by omega) (addNode done (.text place (String.ofList u)))
      refine hrest.mono ?_
      rintro ⟨body, m⟩ _ ⟨hm, ns, hbody, hns⟩
      refine ⟨hm, .text place (String.ofList u) :: ns, ?_, ?_⟩
      · rw [hbody]
        show (Node.text place (String.ofList u) :: done).reverse ++ ns = _
        rw [List.reverse_cons, List.append_assoc, List.singleton_append]
      · rw [hp]
        exact .cons place u hns

theorem takes_inert_document (h : Inert p) (hn : p.length ≤ n) :
    Takes (document readInner (n + 5)) p fun body _ => Spells body p := by
  refine .bind ((takes_inert_nodes h hn []).mono ?_)
  rintro ⟨body, m⟩ q ⟨rfl, ns, rfl, hns⟩
  exact .bind (.scan (.pure (.pure hns)))

end Read

/-- An inert text is read without an error, as texts that hold it with the ends of its lines unified. -/
theorem Document.read_inert {text : String} (h : Inert text.toList) (resource : Option String) :
    ∃ d, read resource text = .ok d ∧ d.macros = [] ∧ Spells d.nodes (unifyNewlines text.toList) := by
  have hpending := Scanner.pending_ofText text resource
  obtain ⟨n, hfuel, hn⟩ : ∃ n, fuelFor (Scanner.ofText text resource) = n + 5 ∧
      (unifyNewlines text.toList).length ≤ n := by
    refine ⟨8 * (Scanner.ofText text resource).pending.length + 11, rfl, ?_⟩
    rw [hpending]
    omega
  have htakes : Read.Takes (Read.document readInside (n + 5)) (unifyNewlines text.toList)
      fun body _ => Spells body (unifyNewlines text.toList) := Read.takes_inert_document h.unifyNewlines hn
  obtain ⟨body, s', hdocument, hbody⟩ := htakes ⟨Scanner.ofText text resource, []⟩ hpending
  refine ⟨⟨s'.place, body, []⟩, ?_, rfl, hbody⟩
  rw [Document.read, readWith, hfuel, hdocument]

/-- Texts write what they hold. -/
theorem Spells.run {ns : List Node} {cs : List Char} (h : Spells ns cs) (scope : Scope) (deeper : Deeper)
    (s : Store) : (renderNodes scope ns).run deeper s =
      .ok () { s with written := s.written ++ String.ofList cs } := by
  induction h generalizing s with
  | nil => simp [renderNodes]; rfl
  | @cons ns cs place u _ ih =>
    have hnode : (renderNode scope (.text place (String.ofList u))).run deeper s =
        .ok () { s with written := s.written ++ String.ofList u } := rfl
    rw [renderNodes, Script.run_bind, Run.bind_ok hnode, ih, String.append_assoc, String.ofList_append]

/-- A template of texts gives what they hold. -/
theorem Spells.evaluateWithin {t : Template} {cs : List Char} (h : Spells t.document.nodes cs) (n : Nat)
    (vars : Bindings Value) (host : HostKind) (s : Store) :
    ∃ s', t.evaluateWithin (n + 1) vars host s = .ok (String.ofList cs) s' := by
  have hrun := h.run (s.enterRoot (t.frame vars host)).1 (Deeper.within n)
    { (s.enterRoot (t.frame vars host)).2 with written := "" }
  rw [String.empty_append] at hrun
  have hend : Run.Finishes ((Deeper.within (n + 1)).render (s.enterRoot (t.frame vars host)).1
    t.document.nodes { (s.enterRoot (t.frame vars host)).2 with written := "" }) _ := .inl hrun
  rw [Template.evaluateWithin_eq]
  exact ⟨_, Run.capture_of_ok hend.endBreaks⟩

/-- Plain text survives. A text whose dollar signs and hash signs mean nothing is read without an error, and
for all variables it gives itself, with the ends of its lines unified. -/
theorem Template.plain_text {text : String} (h : Inert text.toList) (s : Store) :
    ∃ t s₁, Template.ofText text s = .ok t s₁ ∧ t.macros = [] ∧
      ∀ (vars : Bindings Value) (host : HostKind) (s₂ : Store),
        ∃ s₃, t.evaluate vars host s₂ = .ok (String.ofList (unifyNewlines text.toList)) s₃ := by
  obtain ⟨d, hread, hmacros, hnodes⟩ := Document.read_inert h none
  refine ⟨s.newTemplate d, s.opening .noNames, Template.ofResource_eq hread, hmacros, fun vars host s₂ => ?_⟩
  obtain ⟨n, hn⟩ : ∃ n, defaultFuel = n + 1 := Nat.exists_eq_succ_of_ne_zero (by simp [defaultFuel])
  rw [Template.evaluate, hn]
  exact Spells.evaluateWithin hnodes n vars host s₂

/-- A half-open brace, a bracket, names that mean nothing and markers next to each other. -/
theorem Template.plain_text_of_markers :
    let text := "$!{2} #[a] #@b #c \r$#"
    Inert text.toList ∧
      ∃ t s₁, Template.ofText text default = .ok t s₁ ∧ t.macros = [] ∧
        ∀ (vars : Bindings Value) (host : HostKind) (s₂ : Store),
          ∃ s₃, t.evaluate vars host s₂ = .ok "$!{2} #[a] #@b #c \n$#" s₃ := by
  intro text
  have hinert : Inert text.toList := by decide
  refine ⟨hinert, ?_⟩
  have hnewlines : String.ofList (unifyNewlines text.toList) = "$!{2} #[a] #@b #c \n$#" := by decide
  rw [← hnewlines]
  exact Template.plain_text hinert default

end Stencil
