import Stencil.Proofs.Blocks
import Stencil.Proofs.ReadBack

/-!
# Reading blocks

Reading nodes stops where the stack machine on the inside of a block stops, at the same mark, and refuses the
text at the mark that the machine rejects: `reads_nodes`. So a text of directives and plain text is read
exactly when the machine accepts it: `read_tokens_iff`.
-/

namespace Stencil

open Stencil.Text Scan

/-- The characters that are still to be read after a mark. -/
def afterMark (m : Mark) (rest : Remainder) : List Char :=
  dropNewline (m.condition.toList ++ (rest.1.chars ++ TextRuns.chars rest.2))

/-- Whether an error says that a mark has no place, and was raised after it. -/
def Refused (m : Mark) (rest : Remainder) (e : ParseError) : Prop :=
  ∃ (s : Scanner) (inside : Enclosure), e = s.error (.misplaced m inside) ∧ s.pending = afterMark m rest

/-- Whether an error says that the mark that the machine rejects has no place. -/
def RefusedBy (blocks : List OpenBlock) (runs : TextRuns) (e : ParseError) : Prop :=
  ∃ m rest, walk blocks runs = .rejects m rest ∧ Refused m rest e

theorem TextRuns.head?_chars (runs : TextRuns) : ∀ c ∈ (TextRuns.chars runs).head?, c = '#' := by
  cases runs with
  | nil => nofun
  | cons run runs =>
    obtain ⟨d, t⟩ := run
    obtain ⟨cs, hcs, -⟩ := written_eq_cons d
    rw [TextRuns.chars, hcs]
    rintro _ ⟨⟩
    rfl

theorem dropNewline_append {cs ds : List Char} (h : cs = [] → ds.head? ≠ some '\n') :
    dropNewline (cs ++ ds) = dropNewline cs ++ ds := by
  cases cs with
  | nil =>
    cases ds with
    | nil => rfl
    | cons d ds =>
      have hd : d ≠ '\n' := fun hd => h rfl (congrArg some hd)
      simp [dropNewline, hd]
  | cons c cs =>
    by_cases hc : c = '\n'
    · rw [hc]
      rfl
    · simp [dropNewline, hc]

theorem dropNewline_chars (t : PlainText) (runs : TextRuns) :
    dropNewline (t.chars ++ TextRuns.chars runs) = t.dropNewline.chars ++ TextRuns.chars runs :=
  dropNewline_append fun _ hr => absurd (TextRuns.head?_chars runs _ hr) (by decide)

/-- What stands after a mark without a condition. -/
theorem afterMark_eq {m : Mark} (hm : m ≠ .elseIf) (rest : Remainder) :
    afterMark m rest = rest.1.dropNewline.chars ++ TextRuns.chars rest.2 := by
  rw [afterMark, show m.condition = "" by cases m <;> first | rfl | exact absurd rfl hm]
  exact dropNewline_chars rest.1 rest.2

variable {readInner : ReadInner} {n : Nat}

section Heads

variable {k : List Char} {E : ParseError → Prop}

/-- The condition of a choice is read. -/
theorem reads_true {Φ : Expr → List Char → Prop} (hn : 24 ≤ n) (h : ∀ e, Φ e (')' :: k)) :
    Scan.Reads (expr readInner n) ("true".toList ++ ')' :: k) Φ E := by
  have hsource : (Expr.literal default (.bool true)).source = "true" := rfl
  refine reads_source (t := .literal default (.bool true)) trivial rfl trivial trivial nofun ?_ ?_ h
  · rw [hsource]
    exact hn
  · exact List.dropWhile_cons_of_neg (by decide)

/-- The collection of a loop is read. -/
theorem reads_collection {Φ : Expr → List Char → Prop} (hn : 24 ≤ n) (h : ∀ e, Φ e (')' :: k)) :
    Scan.Reads (expr readInner n) (" $l".toList ++ ')' :: k) Φ E := by
  have hsource : (Expr.reference default "l" false []).source = "$l" := rfl
  have hl : IsName "l" := isName_ofList rfl rfl
  refine reads_source (t := .reference default "l" false []) ⟨⟨hl, rfl, nofun⟩, trivial⟩ rfl
    ⟨trivial, trivial⟩ ⟨trivial, trivial⟩ ⟨nofun, trivial⟩ ?_ ?_ h
  · rw [hsource]
    exact Nat.le_trans (by decide) hn
  · rfl

end Heads

/-- Whether the characters that remain are those after the end of a block, which the directives end. -/
def Closed (b : OpenBlock) (runs : TextRuns) (q : List Char) : Prop :=
  ∃ (t : PlainText) (after : TextRuns), q = t.chars ++ TextRuns.chars after ∧ walk [b] runs = walk [] after ∧
    List.length after < List.length runs

/-- Whether nodes are read up to the mark at which the machine stops, and the text is refused at the mark that
it rejects. -/
def NodesRead (readInner : ReadInner) (runs : TextRuns) : Prop :=
  ∀ ⦃n : Nat⦄ ⦃done : List Node⦄ ⦃t : PlainText⦄, 32 * List.length runs + 4 ≤ n →
    Read.Reads (Read.nodes readInner n done) (t.chars ++ TextRuns.chars runs)
      (fun r q => ∃ rest, walk [] runs = .ends r.2 rest ∧ q = afterMark r.2 rest) (RefusedBy [] runs)

theorem RefusedBy.block {b : OpenBlock} {runs : TextRuns} {e : ParseError} (h : RefusedBy [] runs e) :
    RefusedBy [b] runs e := by
  obtain ⟨m, rest, hwalk, hrefused⟩ := h
  refine ⟨m, rest, ?_, hrefused⟩
  have := walk_append [] b runs
  rwa [hwalk] at this

theorem walk_singleton {b : OpenBlock} {runs : TextRuns} {m : Mark} {rest : Remainder} {inner : List OpenBlock}
    (h : walk [] runs = .ends m rest) (hb : b.take m = some inner) : walk [b] runs = walk inner rest.2 := by
  simpa [h, hb] using walk_append [] b runs

theorem walk_rejects {b : OpenBlock} {runs : TextRuns} {m : Mark} {rest : Remainder}
    (h : walk [] runs = .ends m rest) (hb : b.take m = none) : walk [b] runs = .rejects m rest := by
  simpa [h, hb] using walk_append [] b runs

/-- A block that ends closes. -/
theorem closed_of_ends {b : OpenBlock} {runs : TextRuns} {rest : Remainder} (h : walk [] runs = .ends .endBlock rest) :
    Closed b runs (afterMark .endBlock rest) :=
  ⟨rest.1.dropNewline, rest.2, afterMark_eq (m := .endBlock) (by decide) rest, walk_singleton h rfl, (walk_ends_length h).2 nofun⟩

theorem RefusedBy.of_walk {blocks blocks' : List OpenBlock} {runs runs' : TextRuns} {e : ParseError}
    (h : walk blocks runs = walk blocks' runs') (he : RefusedBy blocks' runs' e) : RefusedBy blocks runs e := by
  obtain ⟨m, rest, hwalk, hrefused⟩ := he
  exact ⟨m, rest, h.trans hwalk, hrefused⟩

theorem Closed.of_walk {b b' : OpenBlock} {runs runs' : TextRuns} {q : List Char} (h : walk [b] runs = walk [b'] runs')
    (hlen : List.length runs' ≤ List.length runs) (hq : Closed b' runs' q) : Closed b runs q := by
  obtain ⟨t, after, hq, hwalk, hlt⟩ := hq
  exact ⟨t, after, hq, h.trans hwalk, by omega⟩

/-- A mark is accepted when the block takes it. -/
theorem reads_close {b : OpenBlock} {runs : TextRuns} {m : Mark} {rest : Remainder} {allowed : List Mark}
    {inside : Enclosure} (hwalk : walk [] runs = .ends m rest)
    (hallowed : allowed.contains m = (b.take m).isSome) {Φ : Unit → List Char → Prop}
    (h : (b.take m).isSome → Φ () (afterMark m rest)) :
    Scan.Reads (close allowed inside m) (afterMark m rest) Φ (RefusedBy [b] runs) := by
  rw [close, hallowed]
  cases hb : b.take m with
  | some inner => exact .pure (h (by rw [hb]; rfl))
  | none => exact .fail fun s hs => ⟨m, rest, walk_rejects hwalk hb, s, inside, rfl, hs⟩

/-- The nodes of a block are read up to the mark that the block takes. -/
theorem reads_block {b : OpenBlock} {runs : TextRuns} {t : PlainText} {allowed : List Mark} {inside : Enclosure}
    (hallowed : ∀ m, allowed.contains m = (b.take m).isSome) (h : NodesRead readInner runs)
    (hn : 32 * List.length runs + 5 ≤ n) :
    Read.Reads (Read.block readInner n allowed inside) (t.chars ++ TextRuns.chars runs)
      (fun r q => ∃ rest, walk [] runs = .ends r.2 rest ∧ (b.take r.2).isSome ∧ q = afterMark r.2 rest)
      (RefusedBy [b] runs) := by
  obtain ⟨n, rfl⟩ : ∃ m, n = m + 1 := ⟨n - 1, by omega⟩
  rw [Read.block]
  refine .bind (.scan (.skipNewline ?_))
  rw [dropNewline_chars]
  refine .bind ((h (by omega)).mono ?_ fun _ he => he.block)
  rintro ⟨body, m⟩ _ ⟨rest, hwalk, rfl⟩
  refine .bind (.scan (reads_close hwalk (hallowed m) fun hb => .pure ⟨rest, hwalk, hb, rfl⟩))

/-- A block that only an end ends is read to its end. -/
theorem reads_block_other {runs : TextRuns} {t : PlainText} {inside : Enclosure} (h : NodesRead readInner runs)
    (hn : 32 * List.length runs + 5 ≤ n) :
    Read.Reads (Read.block readInner n [.endBlock] inside) (t.chars ++ TextRuns.chars runs)
      (fun _ q => Closed .other runs q) (RefusedBy [.other] runs) := by
  refine (reads_block (b := .other) (fun m => by cases m <;> rfl) h hn).mono ?_ fun _ he => he
  rintro ⟨body, m⟩ _ ⟨rest, hwalk, hb, rfl⟩
  cases m with
  | endBlock => exact closed_of_ends hwalk
  | _ => cases hb

section Openers

variable {runs : TextRuns} {t : PlainText}

/-- A choice is read to its end. -/
theorem reads_choice {opener : String} (h : ∀ runs' : TextRuns, List.length runs' ≤ List.length runs → NodesRead readInner runs')
    (hn : 32 * List.length runs + 32 ≤ n) :
    Read.Reads (Read.choice readInner n opener) ("(true)".toList ++ (t.chars ++ TextRuns.chars runs))
      (fun _ q => Closed .choice runs q) (RefusedBy [.choice] runs) := by
  induction n generalizing runs t opener with
  | zero => omega
  | succ n ih =>
    rw [Read.choice]
    refine .bind (.scan (.here fun place => .bind (.scan (.expect (c := '(') rfl (.bind (.scan ?_))))))
    refine reads_true (by omega) fun e => ?_
    refine .bind (.scan (.expect rfl (.bind ?_)))
    refine (reads_block (b := .choice) (fun m => by cases m <;> rfl) (h runs (Nat.le_refl _)) (by omega)).mono ?_ fun _ he => he
    rintro ⟨yes, m⟩ _ ⟨rest, hwalk, hb, rfl⟩
    dsimp only at hwalk hb ⊢
    obtain ⟨hle, hlt⟩ := walk_ends_length hwalk
    cases m with
    | endOfText => cases hb
    | endBlock => exact .bind (.scan (.here fun _ => .pure (closed_of_ends hwalk)))
    | elseIf =>
      -- The branch after the condition is a choice on the remainder.
      have hafter : walk [.choice] runs = walk [.choice] rest.2 := walk_singleton hwalk rfl
      have hlt := hlt nofun
      have hrest : Read.Reads (Read.choice readInner n "#elseif")
          ("(true)".toList ++ (rest.1.chars ++ TextRuns.chars rest.2))
          (fun _ q => Closed .choice rest.2 q) (RefusedBy [.choice] rest.2) :=
        ih (fun runs' hr => h runs' (by omega)) (by omega)
      refine .bind (hrest.mono ?_ ?_)
      · exact fun no q hq => .pure (hq.of_walk hafter hle)
      · exact fun e he => he.of_walk hafter
    | otherwise =>
      have hafter : walk [.choice] runs = walk [.otherwise] rest.2 := walk_singleton hwalk rfl
      rw [afterMark_eq (by decide)]
      refine .bind (.scan (.here fun place => .bind ((h rest.2 hle (by omega)).mono ?_ ?_)))
      · rintro ⟨no, m⟩ _ ⟨rest', hwalk', rfl⟩
        dsimp only at hwalk' ⊢
        refine .bind (.scan ((reads_close (b := .otherwise) hwalk' (by cases m <;> rfl) fun hb' => ?_).mono
          (fun _ _ hq => hq) ?_))
        · cases m with
          | endBlock =>
            exact .pure ((closed_of_ends (b := .otherwise) hwalk').of_walk hafter hle)
          | _ => cases hb'
        · exact fun e he => he.of_walk hafter
      · exact fun e he => (he.block (b := .otherwise)).of_walk hafter

/-- A loop is read to its end. -/
theorem reads_loop (h : NodesRead readInner runs) (hn : 32 * List.length runs + 32 ≤ n) :
    Read.Reads (Read.loop readInner n) ("($i in $l)".toList ++ (t.chars ++ TextRuns.chars runs))
      (fun _ q => Closed .other runs q) (RefusedBy [.other] runs) := by
  obtain ⟨n, rfl⟩ : ∃ m, n = m + 3 := ⟨n - 3, by omega⟩
  rw [Read.loop]
  refine .bind (.scan (.here fun place => .bind (.scan ?_)))
  have hi : IsName "i" := isName_ofList rfl rfl
  have harguments : "($i in $l)".toList ++ (t.chars ++ TextRuns.chars runs) =
      '(' :: '$' :: ("i".toList ++ ' ' :: 'i' :: 'n' :: (" $l".toList ++ ')' :: (t.chars ++ TextRuns.chars runs))) := rfl
  rw [harguments]
  refine .bind (.expect rfl (.bind (.skipBlanks (.bind (.peek ?_)))))
  refine .bind (.bind (.skip (.bind (.peek ?_))))
  rw [List.dropWhile_cons_of_neg (by decide), List.tail_cons]
  dsimp only
  rw [if_neg (by rintro ⟨⟩)]
  refine .bind (.peek ?_)
  rw [if_neg (by rintro ⟨⟩)]
  refine .bind (.sees ?_)
  rw [if_pos (by rfl), reference]
  refine .bind (.bind (reads_name hi (by rintro _ ⟨⟩; decide) (.bind (.here fun place' => .bind ?_))))
  refine reads_noSuffix (.char _ (by decide)) (.pure (.pure ?_))
  refine .bind (.skipBlanks (.bind (.peek (.bind (.skip (.bind (.peek (.bind (.skip (.pure ?_)))))))))) 
  refine .bind (.scan (reads_collection (by omega) fun e => .bind (.scan (.expect rfl (.bind ?_)))))
  exact (reads_block_other h (by omega)).mono (fun _ _ hq => .pure hq) fun _ he => he

/-- The definition of a variable is read to its end. -/
theorem reads_definition (h : NodesRead readInner runs) (hn : 32 * List.length runs + 32 ≤ n) :
    Read.Reads (Read.definition readInner n) ("($d)".toList ++ (t.chars ++ TextRuns.chars runs))
      (fun _ q => Closed .other runs q) (RefusedBy [.other] runs) := by
  obtain ⟨n, rfl⟩ : ∃ m, n = m + 1 := ⟨n - 1, by omega⟩
  have hd : IsName "d" := isName_ofList rfl rfl
  rw [Read.definition]
  refine .bind (.scan (.here fun place => .bind (.scan (.expect (c := '(') rfl ?_))))
  refine .bind (.scan (.expect (c := '$') rfl (.bind (.scan ?_))))
  refine reads_name (x := "d") hd (k := ')' :: (t.chars ++ TextRuns.chars runs)) (by rintro _ ⟨⟩; decide) ?_
  refine .bind (.scan (.expect rfl (.bind ?_)))
  exact (reads_block_other h (by omega)).mono (fun _ _ hq => .pure hq) fun _ he => he

/-- The definition of a macro is read to its end. -/
theorem reads_macroDefinition (h : NodesRead readInner runs) (hn : 32 * List.length runs + 32 ≤ n) :
    Read.Reads (Read.macroDefinition readInner n) ("(m)".toList ++ (t.chars ++ TextRuns.chars runs))
      (fun _ q => Closed .other runs q) (RefusedBy [.other] runs) := by
  obtain ⟨n, rfl⟩ : ∃ m, n = m + 2 := ⟨n - 2, by omega⟩
  have hm : IsName "m" := isName_ofList rfl rfl
  rw [Read.macroDefinition]
  refine .bind (.scan (.here fun place => .bind (.scan (.expect (c := '(') rfl ?_))))
  refine .bind (.scan (.skipBlanks (.bind (.scan ?_))))
  refine reads_name (x := "m") hm (k := ')' :: (t.chars ++ TextRuns.chars runs)) (by rintro _ ⟨⟩; decide) ?_
  refine .bind (.scan ?_)
  rw [parameters]
  refine .bind (.skipBlanks (.bind (.peek (.bind (.skip (.pure (.bind ?_)))))))
  refine (reads_block_other h (by omega)).mono (fun _ _ hq => ?_) fun _ he => he
  exact .bind (.define (.bind (.scan (.here fun _ => .pure hq))))

/-- The call of a macro with a body is read to its end. -/
theorem reads_bodyCall (h : NodesRead readInner runs) (hn : 32 * List.length runs + 32 ≤ n) :
    Read.Reads (Read.macroCall readInner n true "m") ("()".toList ++ (t.chars ++ TextRuns.chars runs))
      (fun _ q => Closed .other runs q) (RefusedBy [.other] runs) := by
  obtain ⟨n, rfl⟩ : ∃ m, n = m + 2 := ⟨n - 2, by omega⟩
  rw [Read.macroCall]
  refine .bind (.scan (.here fun place => .bind (.scan (.takeWhile ?_))))
  refine .bind (.scan (.peek (.bind (.scan (.skip (.bind (.scan ?_)))))))
  rw [callArguments]
  refine .bind (.skipBlanks (.bind (.peek (.bind (.skip (.pure (.bind ?_)))))))
  refine (reads_block_other h (by omega)).mono (fun _ _ hq => ?_) fun _ he => he
  exact .bind (.scan (.here fun _ => .pure hq))

end Openers

/-- The name of a directive is read, with its braces. -/
theorem reads_directiveName {x : String} {k : List Char} {Φ : String → List Char → Prop}
    {E : ParseError → Prop} (hx : IsName x) (h : Φ x k) :
    Scan.Reads directiveName ('\x7b' :: (x.toList ++ '\x7d' :: k)) Φ E := by
  refine .bind (.peek (.bind (.skip (.bind ?_))))
  refine reads_name hx (by rintro _ ⟨⟩; decide) ?_
  exact .bind (.expect (List.dropWhile_cons_of_neg (by decide)) (.pure h))

/-- A directive begins with a hash sign and its name in braces. -/
theorem reads_item_directive {x : String} {k : List Char} {Φ : Item → List Char → Prop}
    {E : ParseError → Prop}
    (h : Read.Reads (Read.directive readInner n) ('\x7b' :: (x.toList ++ '\x7d' :: k)) Φ E) :
    Read.Reads (Read.item readInner (n + 1)) ('#' :: '\x7b' :: (x.toList ++ '\x7d' :: k)) Φ E := by
  rw [Read.item]
  exact .bind (.scan (.peek (.bind (.scan (.skip (.bind (.scan (.peek h))))))))

/-- A marker is read as its mark. -/
theorem reads_marker {m : Marker} {t : PlainText} {runs : TextRuns} {Φ : Item → List Char → Prop}
    {E : ParseError → Prop} (hn : 2 ≤ n) (h : Φ (.mark m.mark) (afterMark m.mark (t, runs))) :
    Read.Reads (Read.item readInner n) (TextRuns.chars ((.marker m, t) :: runs)) Φ E := by
  obtain ⟨n, rfl⟩ : ∃ k, n = k + 2 := ⟨n - 2, by omega⟩
  have hname : IsName m.name := by cases m <;> exact isName_ofList rfl rfl
  rw [TextRuns.chars, Directive.written, m.toList_written, List.cons_append, List.cons_append, List.append_assoc,
    List.cons_append]
  refine reads_item_directive ?_
  rw [Read.directive]
  refine .bind (.scan (reads_directiveName hname ?_))
  cases m with
  | endBlock => exact .bind (.scan (.skipNewline (.pure h)))
  | elseIf => exact .bind (.scan (.skipNewline (.pure h)))
  | otherwise => exact .bind (.scan (.skipNewline (.pure h)))

/-- An opener is read with its block. -/
theorem reads_opener {o : BlockOpener} {t : PlainText} {runs : TextRuns}
    (h : ∀ runs' : TextRuns, List.length runs' ≤ List.length runs → NodesRead readInner runs')
    (hn : 32 * List.length runs + 34 ≤ n) :
    Read.Reads (Read.item readInner n) (TextRuns.chars ((.opener o, t) :: runs))
      (fun i q => (∃ x, i = .node x) ∧ Closed o.block runs q) (RefusedBy [o.block] runs) := by
  obtain ⟨n, rfl⟩ : ∃ k, n = k + 2 := ⟨n - 2, by omega⟩
  have hruns := h runs (Nat.le_refl _)
  have hskip {q : List Char} (hq : Closed .other runs q) : Closed .other runs (dropNewline q) := by
    obtain ⟨t', after, rfl, hwalk, hlen⟩ := hq
    exact ⟨t'.dropNewline, after, dropNewline_chars t' after, hwalk, hlen⟩
  cases o with
  | choice =>
    refine reads_item_directive (x := "if") (k := "(true)".toList ++ (t.chars ++ TextRuns.chars runs)) ?_
    rw [Read.directive]
    refine .bind (.scan (reads_directiveName (isName_ofList rfl rfl) (.bind ?_)))
    exact (reads_choice h (by omega)).mono (fun x q hq => .pure ⟨⟨x, rfl⟩, hq⟩) fun _ he => he
  | loop =>
    refine reads_item_directive (x := "foreach") (k := "($i in $l)".toList ++ (t.chars ++ TextRuns.chars runs)) ?_
    rw [Read.directive]
    refine .bind (.scan (reads_directiveName (isName_ofList rfl rfl) (.bind ?_)))
    exact (reads_loop hruns (by omega)).mono (fun x q hq => .pure ⟨⟨x, rfl⟩, hq⟩) fun _ he => he
  | definition =>
    refine reads_item_directive (x := "define") (k := "($d)".toList ++ (t.chars ++ TextRuns.chars runs)) ?_
    rw [Read.directive]
    refine .bind (.scan (reads_directiveName (isName_ofList rfl rfl) (.bind ?_)))
    refine (reads_definition hruns (by omega)).mono (fun x q hq => ?_) fun _ he => he
    exact .bind (.scan (.skipNewline (.pure ⟨⟨x, rfl⟩, hskip hq⟩)))
  | macroDefinition =>
    refine reads_item_directive (x := "macro") (k := "(m)".toList ++ (t.chars ++ TextRuns.chars runs)) ?_
    rw [Read.directive]
    refine .bind (.scan (reads_directiveName (isName_ofList rfl rfl) (.bind ?_)))
    exact (reads_macroDefinition hruns (by omega)).mono (fun x q hq => .pure ⟨⟨x, rfl⟩, hq⟩) fun _ he => he
  | bodyCall =>
    have hchars : TextRuns.chars ((.opener .bodyCall, t) :: runs) =
        '#' :: '@' :: ("m".toList ++ ("()".toList ++ (t.chars ++ TextRuns.chars runs))) := rfl
    have hm : IsName "m" := isName_ofList rfl rfl
    rw [hchars, Read.item]
    refine .bind (.scan (.peek (.bind (.scan (.skip (.bind (.scan (.peek ?_))))))))
    refine .bind (.scan (.skip (.bind (.scan (.sees ?_)))))
    rw [if_pos (by rfl)]
    refine .bind (.scan (reads_name hm (by rintro _ ⟨⟩; decide) (.bind ?_)))
    exact (reads_bodyCall hruns (by omega)).mono (fun x q hq => .pure ⟨⟨x, rfl⟩, hq⟩) fun _ he => he

/-- A run of text is read as one node. -/
theorem reads_text {c : Char} {cs : List Char} {runs : TextRuns} {Φ : Item → List Char → Prop}
    {E : ParseError → Prop} (hplain : ∀ d ∈ c :: cs, d ≠ '$' ∧ d ≠ '#')
    (h : ∀ x, Φ (.node x) (TextRuns.chars runs)) :
    Read.Reads (Read.item readInner (n + 1)) (c :: cs ++ TextRuns.chars runs) Φ E := by
  obtain ⟨⟨hdollar, hhash⟩, hcs⟩ := List.forall_mem_cons.1 hplain
  have hspan := span_append (c := fun c => c != '$' && c != '#') (l := cs) (k := TextRuns.chars runs)
    (fun d hd => by simp [hcs d hd]) fun d hd => by simp [TextRuns.head?_chars runs d hd]
  rw [Read.item]
  refine .bind (.scan (.peek ?_))
  rw [List.cons_append, List.head?_cons]
  split
  · rename_i heq
    cases heq
  · rename_i heq
    exact absurd (Option.some.inj heq) hhash
  · rename_i heq
    exact absurd (Option.some.inj heq) hdollar
  · refine .bind (.scan (.skip (.bind (.scan ?_))))
    rw [plainText, List.tail_cons]
    refine .bind (.takeWhile (.bind (.here fun place => .pure ?_)))
    rw [hspan.2]
    exact .pure (h _)

/-- Nodes are read up to the mark at which the machine stops. -/
theorem reads_nodes (runs : TextRuns) : NodesRead readInner runs := by
  induction hlen : List.length runs using Nat.strongRecOn generalizing runs with
  | ind l ih =>
    subst hlen
    have ih (runs' : TextRuns) (hr : List.length runs' < List.length runs) : NodesRead readInner runs' :=
      ih _ hr runs' rfl
    -- After a run of text stands a directive, or nothing.
    have hdirectives {n : Nat} {done : List Node} (hn : 32 * List.length runs + 3 ≤ n) :
        Read.Reads (Read.nodes readInner n done) (TextRuns.chars runs)
          (fun r q => ∃ rest, walk [] runs = .ends r.2 rest ∧ q = afterMark r.2 rest)
          (RefusedBy [] runs) := by
      obtain ⟨n, rfl⟩ : ∃ k, n = k + 2 := ⟨n - 2, by omega⟩
      rw [Read.nodes]
      match runs with
      | [] =>
        rw [Read.item]
        exact .bind (.bind (.scan (.peek (.pure (.pure ⟨(.empty, []), rfl, rfl⟩)))))
      | (.marker m, t) :: runs =>
        rw [List.length_cons] at hn
        exact .bind (reads_marker (by omega) (.pure ⟨(t, runs), rfl, rfl⟩))
      | (.opener o, t) :: runs =>
        rw [List.length_cons] at hn ih
        have hshorter (runs' : TextRuns) (hr : List.length runs' ≤ List.length runs) : NodesRead readInner runs' :=
          ih runs' (by omega)
        refine .bind ((reads_opener hshorter (by omega)).mono ?_ fun e he => he.of_walk rfl)
        rintro _ q ⟨⟨x, rfl⟩, t', after, rfl, hwalk, hlen⟩
        refine (ih after (by omega) (by omega)).mono ?_ fun e he => he.of_walk hwalk
        rintro r q ⟨rest, hends, rfl⟩
        exact ⟨rest, hwalk.trans hends, rfl⟩
    intro n done t hn
    obtain ⟨cs, hplain⟩ := t
    cases cs with
    | nil => exact hdirectives (by omega)
    | cons c cs =>
      obtain ⟨n, rfl⟩ : ∃ k, n = k + 2 := ⟨n - 2, by omega⟩
      rw [Read.nodes]
      exact .bind (reads_text hplain fun x => hdirectives (by omega))

theorem TextRuns.length_le (runs : TextRuns) : 5 * List.length runs ≤ (TextRuns.chars runs).length := by
  induction runs with
  | nil => exact Nat.zero_le _
  | cons run runs ih =>
    obtain ⟨d, t⟩ := run
    have hd : 5 ≤ d.written.toList.length := by
      rcases d with o | m
      · cases o <;> decide
      · rw [Directive.written, m.toList_written]
        cases m <;> decide
    simp only [TextRuns.chars, List.length_append, List.length_cons]
    omega

/-- The whole of a text is read, or it is refused at the mark that the machine rejects. -/
theorem reads_document (readInner : ReadInner) {runs : TextRuns} {t : PlainText} (hn : 32 * List.length runs + 4 ≤ n) :
    Read.Reads (Read.document readInner n) (t.chars ++ TextRuns.chars runs)
      (fun _ _ => ∃ rest, walk [] runs = .ends .endOfText rest)
      fun e => ∃ m rest, ((m ≠ .endOfText ∧ walk [] runs = .ends m rest) ∨ walk [] runs = .rejects m rest) ∧
        Refused m rest e := by
  refine .bind ((reads_nodes runs hn).mono ?_ ?_)
  · rintro ⟨body, m⟩ _ ⟨rest, hwalk, rfl⟩
    dsimp only at hwalk ⊢
    refine .bind (.scan ?_)
    by_cases hm : m = .endOfText
    · subst hm
      exact .pure (.pure ⟨rest, hwalk⟩)
    · rw [close, if_neg (by simpa using hm)]
      exact .fail fun s hs => ⟨m, rest, .inl ⟨hm, hwalk⟩, s, .document, rfl, hs⟩
  · rintro e ⟨m, rest, hwalk, hrefused⟩
    exact ⟨m, rest, .inr hwalk, hrefused⟩

theorem afterMark_runsOf (m : Mark) (rest : List Token) :
    afterMark m ((runsOf rest).1.unify, TextRuns.unify (runsOf rest).2) =
      dropNewline (unifyNewlines (m.condition ++ tokensText rest).toList) := by
  have hreturn : '\r' ∉ m.condition.toList := by cases m <;> decide
  rw [afterMark, String.toList_append, unifyNewlines_append_of_no_return hreturn, unifyNewlines_tokensText]

/-- What reading tokens comes to: a document when the machine accepts them, and else an error that names the
first mark that has no place, raised right after that mark. -/
theorem read_tokens (resource : Option String) (ts : List Token) :
    (firstMisplaced [] ts = none ∧ ∃ d, Document.read resource (tokensText ts) = .ok d) ∨
    ∃ (m : Mark) (rest : List Token) (s : Scanner) (inside : Enclosure),
      firstMisplaced [] ts = some (m, rest) ∧
      Document.read resource (tokensText ts) = .error (.error (s.error (.misplaced m inside))) ∧
      s.pending = dropNewline (unifyNewlines (m.condition ++ tokensText rest).toList) := by
  have hpending : (Scanner.ofText (tokensText ts) resource).pending =
      (runsOf ts).1.unify.chars ++ TextRuns.chars (TextRuns.unify (runsOf ts).2) := by
    rw [Scanner.pending_ofText, unifyNewlines_tokensText]
  have hlen := TextRuns.length_le (TextRuns.unify (runsOf ts).2)
  have hread := reads_document Document.readInside
    (n := Document.fuelFor (Scanner.ofText (tokensText ts) resource))
    (by rw [Document.fuelFor, hpending, List.length_append]; omega)
    ⟨Scanner.ofText (tokensText ts) resource, []⟩ hpending
  have hmachine := walk_runsOf [] ts
  rw [Document.read, Document.readWith]
  split at hread
  · rename_i body r hok
    rw [hok]
    obtain ⟨rest, hwalk⟩ := hread
    cases hfirst : firstMisplaced [] ts with
    | none => exact .inl ⟨rfl, _, rfl⟩
    | some found =>
      obtain ⟨m, rest'⟩ := found
      rw [hfirst] at hmachine
      obtain ⟨hm, hends⟩ | hrejects := hmachine
      · cases hwalk.symm.trans hends
        exact absurd rfl hm
      · cases hwalk.symm.trans hrejects
  · rename_i e r herror
    rw [herror]
    obtain ⟨m, rest, hwalk, s, inside, rfl, hs⟩ := hread
    cases hfirst : firstMisplaced [] ts with
    | none =>
      rw [hfirst] at hmachine
      obtain ⟨hm, hends⟩ | hrejects := hwalk
      · cases hends.symm.trans hmachine
        exact absurd rfl hm
      · cases hrejects.symm.trans hmachine
    | some found =>
      obtain ⟨m', rest'⟩ := found
      rw [hfirst] at hmachine
      have hsame : m = m' ∧ rest = ((runsOf rest').1.unify, TextRuns.unify (runsOf rest').2) := by
        obtain ⟨-, hends⟩ | hrejects := hwalk <;> obtain ⟨-, hends'⟩ | hrejects' := hmachine
        · cases hends.symm.trans hends'
          exact ⟨rfl, rfl⟩
        · cases hends.symm.trans hrejects'
        · cases hrejects.symm.trans hends'
        · cases hrejects.symm.trans hrejects'
          exact ⟨rfl, rfl⟩
      obtain ⟨rfl, rfl⟩ := hsame
      exact .inr ⟨m, rest', s, inside, rfl, rfl, hs.trans (afterMark_runsOf m rest')⟩
  · exact hread.elim

/-- The structure of blocks is accepted exactly: a text of tokens is read when and only when the stack machine
accepts the tokens, and otherwise the error names the first mark that the machine rejects and is raised right
after it. -/
theorem blocks_accepted_exactly (resource : Option String) (ts : List Token) :
    ((∃ d, Document.read resource (tokensText ts) = .ok d) ↔ firstMisplaced [] ts = none) ∧
    ∀ m rest, firstMisplaced [] ts = some (m, rest) → ∃ (s : Scanner) (inside : Enclosure),
      Document.read resource (tokensText ts) = .error (.error (s.error (.misplaced m inside))) ∧
        s.pending = dropNewline (unifyNewlines (m.condition ++ tokensText rest).toList) := by
  obtain ⟨hnone, d, hok⟩ | ⟨m, rest, s, inside, hsome, herror, hs⟩ := read_tokens resource ts
  · refine ⟨iff_of_true ⟨d, hok⟩ hnone, fun m rest hsome => ?_⟩
    rw [hnone] at hsome
    cases hsome
  · refine ⟨iff_of_false ?_ ?_, fun m' rest' hsome' => ?_⟩
    · rintro ⟨d, hok⟩
      cases herror.symm.trans hok
    · rw [hsome]
      nofun
    · rw [hsome] at hsome'
      cases hsome'
      exact ⟨s, inside, herror, hs⟩

/-- Text after a second `#else` stands after the first mark without a place. -/
theorem second_else_rejected :
    let plain : PlainText := ⟨['a'], by simp⟩
    let ts : List Token := [.opener .choice, .marker .otherwise, .opener .bodyCall, .marker .endBlock,
      .marker .otherwise, .text plain]
    firstMisplaced [] ts = some (.otherwise, [.text plain]) ∧
      ∃ (s : Scanner) (inside : Enclosure),
        Document.read none (tokensText ts) = .error (.error (s.error (.misplaced .otherwise inside))) ∧
          s.pending = ['a'] := by
  intro plain ts
  obtain ⟨s, inside, h, hs⟩ := (blocks_accepted_exactly none ts).2 .otherwise [.text plain] rfl
  exact ⟨rfl, s, inside, h, hs.trans (by decide)⟩

end Stencil
