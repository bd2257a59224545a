import Mathlib.Logic.Function.Iterate
import Stencil.Proofs.PlainText
import Stencil.Proofs.TakenLast

/-!
# Line feeds after directives

A directive is complete with its closing: a parenthesis, or the mark of the end of its block. The line feed
after it belongs to the directive, and is taken where the directive is read or where the mark is. The
definition of a variable by a block takes two, one with the mark and one more, and every other directive one:
`Node.lineFeeds`. What follows begins with the line feeds that are left: `Read.line_feeds_after_closing`.
-/

namespace Stencil

open Stencil.Text

/-! ### Closings -/

/-- How the name of a directive stands in a text, after the hash sign: alone or in braces. -/
inductive Named (d : String) : List Char → Prop
  | alone : Named d d.toList
  | inBraces {blanks : List Char} (h : ∀ c ∈ blanks, isBlank c = true) :
      Named d ('{' :: d.toList ++ blanks ++ ['}'])

/-- What a complete directive ends with: a parenthesis, or the mark of the end of its block. -/
inductive Closing where
  | parenthesis
  | endMark
  deriving DecidableEq

namespace Closing

/-- How a closing is written. -/
inductive Written : Closing → List Char → Prop
  | parenthesis : Written parenthesis [')']
  | endMark {w : List Char} (h : Named "end" w) : Written endMark ('#' :: w)

/-- Whether the closing begins the characters `p`, and `q` is what stands after it without so many of the
line feeds there. -/
def Begins (k : Closing) (feeds : Nat) (p q : List Char) : Prop :=
  ∃ w rest, k.Written w ∧ p = w ++ rest ∧ q = dropNewline^[feeds] rest

theorem Begins.of_parenthesis (q : List Char) : parenthesis.Begins 0 (')' :: q) q :=
  ⟨_, q, .parenthesis, rfl, rfl⟩

theorem Begins.dropNewline {k : Closing} {feeds : Nat} {p q : List Char} (h : k.Begins feeds p q) :
    k.Begins (feeds + 1) p (dropNewline q) := by
  obtain ⟨w, rest, hw, hp, rfl⟩ := h
  exact ⟨w, rest, hw, hp, (Function.iterate_succ_apply' _ _ _).symm⟩

end Closing

/-- What a node ends with, if it is a directive that is complete with a closing. A macro definition leaves an
empty sequence behind. -/
def Node.closing? : Node → Option Closing
  | .assign .. | .call .. | .parse .. | .evaluate .. => some .parenthesis
  | .choose .. | .foreach .. | .define .. | .callWith .. | .sequence .. => some .endMark
  | .text .. | .comment .. | .output .. | .leave .. | .leaveScope .. => none

/-- How many line feeds after its closing belong to a directive. -/
def Node.lineFeeds : Node → Nat
  | .define .. => 2
  | _ => 1

theorem Node.not_isBlank_of_closing {x : Node} {k : Closing} (h : x.closing? = some k) : x.isBlank = false := by
  cases x with
  | text => cases h
  | _ => rfl

theorem Node.lineFeeds_pos (x : Node) : 0 < x.lineFeeds := by
  cases x <;> simp [lineFeeds]

/-- Whether a directive, if the node is one, has its closing at the beginning of `p`, and `q` is what stands
after it without so many of the line feeds there. -/
def Node.Closes (x : Node) (feeds : Nat) (p q : List Char) : Prop :=
  ∀ k, x.closing? = some k → k.Begins feeds p q

theorem Node.Closes.of_some {x : Node} {k : Closing} {feeds : Nat} {p q : List Char} (hk : x.closing? = some k)
    (h : k.Begins feeds p q) : x.Closes feeds p q := by
  intro k' hk'
  rw [hk] at hk'
  exact Option.some.inj hk' ▸ h

theorem Node.Closes.of_none {x : Node} {feeds : Nat} {p q : List Char} (h : x.closing? = none) :
    x.Closes feeds p q := by
  intro k hk
  rw [h] at hk
  cases hk

/-- Of line feeds in a row so many are dropped as there are. -/
theorem dropNewline_iterate {rest : List Char} (h : rest.head? ≠ some '\n') (feeds j : Nat) :
    dropNewline^[feeds] (List.replicate j '\n' ++ rest) = List.replicate (j - feeds) '\n' ++ rest := by
  induction feeds generalizing j with
  | zero => rfl
  | succ feeds ih =>
    cases j with
    | zero =>
      have hstays : dropNewline rest = rest := by
        cases rest with
        | nil => rfl
        | cons c rest => simp_all [dropNewline]
      have hnone := ih 0
      simp only [List.replicate, List.nil_append, Nat.zero_sub] at hnone ⊢
      rw [Function.iterate_succ_apply, hstays, hnone]
    | succ j =>
      rw [Function.iterate_succ_apply, List.replicate_succ, Nat.succ_sub_succ, ← ih j]
      rfl

theorem exists_lineFeeds (cs : List Char) :
    ∃ j rest, cs = List.replicate j '\n' ++ rest ∧ rest.head? ≠ some '\n' := by
  refine ⟨(cs.takeWhile (· == '\n')).length, cs.dropWhile (· == '\n'), ?_, fun h => ?_⟩
  · have hall : cs.takeWhile (· == '\n') = List.replicate (cs.takeWhile (· == '\n')).length '\n' :=
      List.eq_replicate_of_mem fun c hc => by simpa using List.mem_takeWhile_imp hc
    rw [← hall, List.takeWhile_append_dropWhile]
  · have hhead := List.head?_dropWhile_not (· == '\n') cs
    rw [h] at hhead
    simp at hhead

/-! ### Parentheses -/

namespace Scan

variable {readInner : ReadInner} {n : Nat} {s : Scanner}

/-- A parenthesis that is seen is taken last. -/
theorem ends_skip (h : s.current = some ')') :
    Ends skip s fun _ p q => Closing.parenthesis.Begins 0 p q := by
  rw [Scanner.current_eq] at h
  obtain ⟨cs, hcs⟩ := List.head?_eq_some_iff.1 h
  refine Gives.skip ⟨_, List.suffix_refl _, ?_⟩
  rw [Scanner.pending_advance, hcs]
  exact .of_parenthesis cs

theorem ends_expect : Ends (expect ')') s fun _ p q => Closing.parenthesis.Begins 0 p q :=
  .after onlyTakes_skipBlanks fun _ _ => .look (.ite ends_skip fun _ => Gives.fail)

theorem ends_assignment :
    Ends (assignment readInner n) s fun x p q => x.Closes (x.lineFeeds - 1) p q := by
  refine .after onlyTakes_expect fun _ t => .after onlyTakes_expect fun _ u => .after onlyTakes_name ?_
  refine fun y v => .after onlyTakes_expect fun _ v' => .after (.call .expr trivial) fun e v => ?_
  exact .map (f := fun _ => Node.assign y e) (ends_expect.mono fun _ p q h => .of_some rfl h)

theorem ends_parenthesised :
    Ends (parenthesised readInner n) s fun _ p q => Closing.parenthesis.Begins 0 p q := by
  refine .after onlyTakes_expect fun _ t => .after (.call (.primary false) trivial) fun e v => ?_
  exact .map ends_expect

/-- The arguments of a macro call end with the parenthesis, with or without commas between them. -/
theorem ends_callArguments :
    Ends (callArguments readInner n) s fun _ p q => Closing.parenthesis.Begins 0 p q := by
  induction n generalizing s with
  | zero => exact nofun
  | succ n ih =>
    have hmore {e : Expr} {t : Scanner} : Ends (do return e :: (← callArguments readInner n)) t
        fun _ p q => Closing.parenthesis.Begins 0 p q := .map ih
    refine .after onlyTakes_skipBlanks fun _ t => .look (.ite (fun hc => .map (ends_skip hc)) fun _ => ?_)
    refine .after (.call (.primary false) trivial) fun e u => .look (.ite (fun _ => ?_) fun _ => hmore)
    exact .after onlyTakes_skip fun _ _ => hmore

/-! ### Items that are no directives with a closing -/

theorem gives_plainText {start : List Char} : Gives (plainText start) s fun x _ => x.closing? = none := by
  rintro _ _ ⟨⟩
  rfl

theorem gives_lineComment : Gives lineComment s fun x _ => x.closing? = none := by
  rintro _ _ ⟨⟩
  rfl

theorem gives_blockComment : Gives blockComment s fun x _ => x.closing? = none := by
  rintro _ _ ⟨⟩
  rfl

theorem gives_verbatim : Gives verbatim s fun x _ => x.closing? = none := by
  refine .seq (.skip (.seq (.peek (.ite (fun _ => .seq (.here (.seq (.skip (.seq ?_))))) fun _ =>
    gives_plainText))))
  rintro _ _ ⟨⟩
  split
  · exact nofun
  · exact .seq fun _ _ _ => .seq (.here (.pure rfl))

theorem gives_dollar : Gives (dollar readInner n) s fun x _ => x.closing? = none := by
  have hrest {quiet : Bool} {start : List Char} {t : Scanner} : Gives
        (do
          if (← peek) = some '{' then
            skip
            if ← sees isLetter then
              let e ← reference readInner n quiet
              expect '}'
              return .output e
            else plainText (start ++ ['{'])
          else if ← sees isLetter then
            return .output (← reference readInner n quiet)
          else plainText start) t fun x _ => x.closing? = none := by
    refine .seq (.peek (.ite (fun _ => .seq (.skip (.seq (.sees (.ite (fun _ => ?_) fun _ => gives_plainText)))))
      fun _ => .seq (.sees (.ite (fun _ => ?_) fun _ => gives_plainText))))
    · exact .seq fun e u _ => .seq fun _ v _ => .pure rfl
    · exact .seq fun e u _ => .pure rfl
  exact .seq (.skip (.seq (.peek (.ite (fun _ => .seq (.skip hrest)) fun _ => hrest))))

theorem gives_leave : Gives (leave readInner n) s fun x _ => x.closing? = none := by
  refine .seq fun _ t _ => .seq (.peek (.ite (fun _ => .seq (.skip ?_)) fun _ => .seq (.here (.pure rfl))))
  exact .seq fun e u _ => .seq fun _ v _ => .seq (.here (.pure rfl))

end Scan

namespace Read

open Scan hiding exhausted Gives Ends OnlyTakes

variable {readInner : ReadInner} {n : Nat} {r : Reader}

/-! ### Marks -/

theorem gives_directiveName {s : Scanner} : Scan.Gives directiveName s fun d t =>
    ∃ w, Named d w ∧ s.pending = w ++ t.pending := by
  refine .seq (.peek (.ite (fun hbrace => .seq (.skip (.seq ?_))) fun _ => ?_))
  · rw [Scanner.current_eq] at hbrace
    obtain ⟨cs, hcs⟩ := List.head?_eq_some_iff.1 hbrace
    refine .name fun c name p hp _ _ _ t ht _ => .seq fun _ u hu => .pure ?_
    obtain ⟨blanks, hblanks, hu⟩ := gives_expect _ _ hu
    refine ⟨_, .inBraces hblanks, ?_⟩
    rw [Scanner.pending_advance, hcs, List.tail_cons] at hp
    rw [hcs, hp, ← ht, hu, String.toList_ofList]
    simp
  · exact .name fun c cs p hp _ _ _ t ht _ => ⟨_, .alone, by rw [hp, ht, String.toList_ofList]⟩

/-- A directive is the end of a block if that is its name, and one line feed after it is taken. -/
theorem gives_directive : Gives (directive readInner n) r fun (i : Item) r' => i = .mark .endBlock →
    ∃ w rest, Named "end" w ∧ r.scanner.pending = w ++ rest ∧ r'.scanner.pending = dropNewline rest := by
  cases n with
  | zero =>
    rw [directive]
    exact Gives.exhausted
  | succ n =>
    refine .after fun d t hd => ?_
    obtain ⟨w, hw, hp⟩ := gives_directiveName d t hd
    split
    · refine .after ?_
      rintro _ _ ⟨⟩
      exact .pure fun _ => ⟨w, t.pending, hw, hp, t.pending_skipNewline⟩
    · exact .seq fun _ _ _ => .pure (by simp)
    · exact .seq fun _ _ _ => .pure (by simp)
    · exact .seq fun _ _ _ => .pure (by simp)
    · exact .seq fun _ _ _ => .pure (by simp)
    · exact .seq fun _ _ _ => .pure (by simp)
    · exact .seq fun _ _ _ => .seq fun _ _ _ => .pure (by simp)
    · exact .seq fun _ _ _ => .seq fun _ _ _ => .pure (by simp)
    · exact .seq fun _ _ _ => .seq fun _ _ _ => .seq fun _ _ _ => .pure (by simp)
    · exact .seq fun _ _ _ => .pure (by simp)
    · exact .seq fun _ _ _ => .seq fun _ _ _ => .seq fun _ _ _ => .pure (by simp)
    · exact .seq fun _ _ _ => .seq fun _ _ _ => .pure (by simp)

/-- Where reading comes to the end of a block, its mark stands there, and one line feed after it is taken. -/
theorem gives_item : Gives (item readInner n) r fun (i : Item) r' =>
    i = .mark .endBlock → Closing.endMark.Begins 1 r.scanner.pending r'.scanner.pending := by
  cases n with
  | zero =>
    rw [item]
    exact Gives.exhausted
  | succ n =>
    have hnode {x : Read Node} {r₁ : Reader} : Gives (do return Item.node (← x)) r₁ fun (i : Item) r' =>
        i = .mark .endBlock → Closing.endMark.Begins 1 r.scanner.pending r'.scanner.pending :=
      .seq fun _ _ _ => .pure (by simp)
    refine .after (.peek ?_)
    split
    · exact .pure (by simp)
    · rename_i hhash
      rw [Scanner.current_eq] at hhash
      obtain ⟨cs, hcs⟩ := List.head?_eq_some_iff.1 hhash
      have hdirective : Gives (directive readInner n) ⟨r.scanner.advance, r.macros⟩ fun (i : Item) r' =>
          i = .mark .endBlock → Closing.endMark.Begins 1 r.scanner.pending r'.scanner.pending := by
        intro i r' hi hmark
        obtain ⟨w, rest, hw, hp, hrest⟩ := gives_directive i r' hi hmark
        rw [Scanner.pending_advance, hcs, List.tail_cons] at hp
        exact ⟨_, rest, .endMark hw, by rw [hcs, hp]; rfl, hrest⟩
      refine .after (.skip (.after (.peek ?_)))
      split
      · exact hnode
      · exact hnode
      · exact hnode
      · exact hdirective
      · refine .after (.skip (.after (.sees (.ite (fun _ => ?_) fun _ => hnode))))
        exact .seq fun _ _ _ => hnode
      · exact .ite (fun _ => hdirective) fun _ => hnode
      · exact hnode
    · exact hnode
    · exact .after (.skip hnode)

/-! ### Blocks and directives -/

/-- A sequence that ends a block takes its mark last. -/
theorem ends_nodes (done : List Node) : Ends (nodes readInner n done) r fun b p q =>
    b.2 = .endBlock → Closing.endMark.Begins 1 p q := by
  induction n generalizing r done with
  | zero =>
    rw [nodes]
    exact Gives.exhausted
  | succ n ih =>
    refine Gives.seq fun i r₁ hi => ?_
    cases i with
    | mark m => exact .pure ⟨_, List.suffix_refl _, fun hm => gives_item _ _ hi (congrArg _ hm)⟩
    | node x =>
      intro b r' hb
      obtain ⟨p, hp, hmark⟩ := ih (addNode done x) b r' hb
      exact ⟨p, hp.trans (onlyTakes_call .item _ _ hi), hmark⟩

theorem ends_block {allowed : List Mark} {inside : Enclosure} :
    Ends (block readInner n allowed inside) r fun b p q =>
      b.2 ∈ allowed ∧ (b.2 = .endBlock → Closing.endMark.Begins 1 p q) := by
  cases n with
  | zero =>
    rw [block]
    exact Gives.exhausted
  | succ n =>
    refine .afterScan (.simple (.skipNewline fun _ _ => trivial)) fun _ r₁ => ?_
    refine .tail (ends_nodes []) fun b r₂ p hb => .after fun _ t hclose => ?_
    obtain ⟨hallowed, rfl⟩ := close_eq_ok.1 hclose
    exact .pure ⟨hallowed, hb⟩

/-- A block that only its end closes. -/
theorem ends_closed {inside : Enclosure} : Ends (block readInner n [.endBlock] inside) r fun _ p q =>
    Closing.endMark.Begins 1 p q := by
  intro b r' hb
  obtain ⟨p, hp, hallowed, hmark⟩ := ends_block b r' hb
  exact ⟨p, hp, hmark (List.mem_singleton.1 hallowed)⟩

/-- A choice is closed by the end of its last branch. -/
theorem ends_choice (opener : String) : Ends (choice readInner n opener) r fun x p q =>
    (∃ place condition yes no, x = .choose place condition yes no) ∧ Closing.endMark.Begins 1 p q := by
  induction n generalizing r opener with
  | zero =>
    rw [choice]
    exact Gives.exhausted
  | succ n ih =>
    refine .afterScan onlyTakes_here fun place r₁ => .afterScan onlyTakes_expect fun _ r₂ => ?_
    refine .afterScan (.call .expr trivial) fun condition r₃ => .afterScan onlyTakes_expect fun _ r₄ => ?_
    refine .decide onlyTakes_block ends_block fun b r₅ p hb => ?_
    -- the mark after the first branch says whether the choice is closed with it
    obtain ⟨yes, m⟩ := b
    obtain ⟨hallowed, hmark⟩ := hb
    cases m with
    | endBlock => exact .inr (.after (.here (.pure ⟨⟨_, _, _, _, rfl⟩, hmark rfl⟩)))
    | elseIf => exact .inl (.tail (ih "#elseif") fun no r₆ q h => .pure ⟨⟨_, _, _, _, rfl⟩, h.2⟩)
    | otherwise =>
      refine .inl (.afterScan onlyTakes_here fun other r₆ => .tail (ends_nodes []) fun no r₇ q h => ?_)
      refine .after fun _ t hclose => ?_
      obtain ⟨hallowed, rfl⟩ := close_eq_ok.1 hclose
      exact .pure ⟨⟨_, _, _, _, rfl⟩, h (List.mem_singleton.1 hallowed)⟩
    | endOfText => simp at hallowed

theorem ends_loop : Ends (loop readInner n) r fun x p q => x.Closes x.lineFeeds p q := by
  cases n with
  | zero =>
    rw [loop]
    exact Gives.exhausted
  | succ n =>
    refine .afterScan onlyTakes_here fun place r₁ => ?_
    refine .afterScan (.of_course (.loopHead (Nat.le_refl _) fun _ _ _ => trivial)) fun x r₂ => ?_
    refine .afterScan (.call .expr trivial) fun e r₃ => .afterScan onlyTakes_expect fun _ r₄ => ?_
    exact .tail ends_closed fun b r₅ p h => .pure (.of_some rfl h)

/-- The definition of a variable takes one line feed with its mark, as other blocks do. -/
theorem ends_definition :
    Ends (definition readInner n) r fun x p q => x.Closes (x.lineFeeds - 1) p q := by
  cases n with
  | zero =>
    rw [definition]
    exact Gives.exhausted
  | succ n =>
    refine .afterScan onlyTakes_here fun place r₁ => .afterScan onlyTakes_expect fun _ r₂ => ?_
    refine .afterScan onlyTakes_expect fun _ r₃ => .afterScan onlyTakes_name fun x r₄ => ?_
    refine .afterScan onlyTakes_expect fun _ r₅ => .tail ends_closed fun b r₆ p h => ?_
    exact .pure (.of_some rfl h)

theorem ends_macroDefinition :
    Ends (macroDefinition readInner n) r fun x p q => x.Closes x.lineFeeds p q := by
  cases n with
  | zero =>
    rw [macroDefinition]
    exact Gives.exhausted
  | succ n =>
    refine .afterScan onlyTakes_here fun place r₁ => .afterScan onlyTakes_expect fun _ r₂ => ?_
    refine .afterScan onlyTakes_skipBlanks fun _ r₃ => .afterScan onlyTakes_name fun x r₄ => ?_
    refine .afterScan onlyTakes_parameters fun ps r₅ => ?_
    refine .tail ends_closed fun b r₆ p h => ?_
    rintro _ _ ⟨⟩
    exact .of_some rfl h

/-- A macro call takes the line feed with its mark if it has a body, and leaves it if not. -/
theorem ends_macroCall (hasBody : Bool) (name : String) :
    Ends (macroCall readInner n hasBody name) r fun x p q =>
      x.lineFeeds = 1 ∧ x.Closes (if hasBody then 1 else 0) p q := by
  cases n with
  | zero =>
    rw [macroCall]
    exact Gives.exhausted
  | succ n =>
    refine .afterScan onlyTakes_here fun place r₁ => .afterScan onlyTakes_takeWhile fun blanks r₂ => ?_
    refine .afterScan onlyTakes_peek fun c r₃ => .ite (fun _ => ?_) fun _ => ?_
    · refine .afterScan onlyTakes_skip fun _ r₄ => ?_
      cases hasBody with
      | true =>
        refine .afterScan (.call .callArguments trivial) fun args r₅ => .tail ends_closed fun b r₆ p h => ?_
        exact .after (.here (.pure ⟨rfl, .of_some rfl h⟩))
      | false =>
        refine .tail (.scan ends_callArguments) fun args r₅ p h => ?_
        exact .after (.here (.pure ⟨rfl, .of_some rfl h⟩))
    · refine .ite (fun _ => nofun) fun _ => .ite (fun _ => nofun) fun _ => .of_gives ?_
      rintro _ _ ⟨⟩
      exact fun _ _ => ⟨rfl, .of_none rfl⟩

/-- One line feed is taken at the common exit of directives, and it is the first that belongs to a directive
without a block. -/
theorem gives_exit {x : Node} {p : List Char} (h : x.Closes (x.lineFeeds - 1) p r.scanner.pending) :
    Gives (do skipNewline; return Item.node x) r fun i r' =>
      ∀ y, i = .node y → y.Closes y.lineFeeds p r'.scanner.pending := by
  rintro _ _ ⟨⟩ _ ⟨⟩ k hk
  have hbegins := (h k hk).dropNewline
  rw [Nat.sub_add_cancel x.lineFeeds_pos] at hbegins
  rwa [← Scanner.pending_skipNewline] at hbegins

theorem ends_directive : Ends (directive readInner n) r fun (i : Item) p q =>
    ∀ x, i = .node x → x.Closes x.lineFeeds p q := by
  cases n with
  | zero =>
    rw [directive]
    exact Gives.exhausted
  | succ n =>
    have hmark {m : Mark} {r₁ : Reader} : Ends (do skipNewline; return Item.mark m) r₁
        fun (i : Item) p q => ∀ x, i = .node x → x.Closes x.lineFeeds p q :=
      .of_gives (.seq fun _ _ _ => .pure (by simp))
    have hnode {x : Node} {p q : List Char} (h : x.Closes x.lineFeeds p q) :
        ∀ y, Item.node x = .node y → y.Closes y.lineFeeds p q := by
      rintro _ ⟨⟩
      exact h
    refine .afterScan onlyTakes_directiveName fun d r₁ => ?_
    split
    · exact hmark
    · exact hmark
    · exact hmark
    · refine .tail (ends_choice "#if") fun x r₂ p h => .pure (hnode ?_)
      obtain ⟨⟨_, _, _, _, rfl⟩, hend⟩ := h
      exact .of_some rfl hend
    · exact .tail ends_loop fun x r₂ p h => .pure (hnode h)
    · exact .of_gives (.after fun x t hx => .pure fun p q => hnode (.of_none (gives_leave x t hx)))
    · exact .tail (.scan ends_assignment) fun x r₂ p h => gives_exit h
    · exact .tail ends_definition fun x r₂ p h => gives_exit h
    · refine .afterScan onlyTakes_here fun place r₂ => ?_
      exact .tail (.scan ends_parenthesised) fun e r₃ p h => gives_exit (.of_some rfl h)
    · exact .tail ends_macroDefinition fun x r₂ p h => .pure (hnode h)
    · refine .afterScan onlyTakes_here fun place r₂ => ?_
      exact .tail (.scan ends_parenthesised) fun e r₃ p h => gives_exit (.of_some rfl h)
    · refine .tail (ends_macroCall false d) fun x r₂ p h => gives_exit ?_
      rw [h.1]
      exact h.2

/-- Every directive that is read closes in the text that was read, and takes the line feeds that belong to it. -/
theorem ends_item : Ends (item readInner n) r fun (i : Item) p q =>
    ∀ x, i = .node x → x.Closes x.lineFeeds p q := by
  cases n with
  | zero =>
    rw [item]
    exact Gives.exhausted
  | succ n =>
    have hnone {x : Scan Node} {r₁ : Reader} (hx : Scan.Gives x r₁.scanner fun x _ => x.closing? = none) :
        Ends (do return Item.node (← x)) r₁ fun (i : Item) p q =>
          ∀ x, i = .node x → x.Closes x.lineFeeds p q := by
      refine .of_gives (.after fun x t ht => .pure fun p q => ?_)
      rintro _ ⟨⟩
      exact .of_none (hx x t ht)
    refine .afterScan onlyTakes_peek fun c r₁ => ?_
    split
    · exact .of_gives (.pure (by simp))
    · refine .afterScan onlyTakes_skip fun _ r₂ => .afterScan onlyTakes_peek fun c r₃ => ?_
      split
      · exact hnone gives_lineComment
      · exact hnone gives_blockComment
      · exact hnone gives_verbatim
      · exact ends_directive
      · refine .afterScan onlyTakes_skip fun _ r₄ => .afterScan onlyTakes_sees fun letter r₅ => ?_
        refine .ite (fun _ => ?_) fun _ => hnone gives_plainText
        refine .afterScan onlyTakes_name fun x r₆ => .tail (ends_macroCall true x) fun y r₇ p h => .pure ?_
        rintro _ ⟨⟩
        rw [h.1]
        exact h.2
      · exact .ite (fun _ => ends_directive) fun _ => hnone gives_plainText
      · exact hnone gives_plainText
    · exact hnone gives_dollar
    · exact .afterScan onlyTakes_skip fun _ r₂ => hnone gives_plainText

/-! ### What follows -/

/-- Characters that are no markers begin a text, which goes on to the next marker. -/
theorem takes_plain_item {run cs : List Char} (hne : run ≠ []) (hplain : ∀ c ∈ run, isPlain c = true) :
    Takes (item readInner (n + 1)) (run ++ cs) fun i q =>
      (∃ place, i = .node (.text place (String.ofList (run ++ cs.takeWhile isPlain)))) ∧
        q = cs.dropWhile isPlain := by
  obtain ⟨c, run, rfl⟩ := List.exists_cons_of_ne_nil hne
  obtain ⟨hc, hrun⟩ := List.forall_mem_cons.1 hplain
  refine .bind (.scan (.peek ?_))
  rw [List.cons_append, List.head?_cons]
  split
  · cases ‹some c = none›
  · cases ‹some c = some '#'›
    cases hc
  · cases ‹some c = some '$'›
    cases hc
  · rename_i d _ _ hd
    cases Option.some.inj hd
    have hread : Scan.Reads (plainText [c]) (run ++ cs) (fun x q =>
        (∃ place, x = .text place (String.ofList (c :: run ++ cs.takeWhile isPlain))) ∧
          q = cs.dropWhile isPlain) fun _ => False := by
      refine .bind (.takeWhile (.bind (.here fun place => .pure ⟨⟨place, ?_⟩, ?_⟩)))
      · exact congrArg (fun l => Node.text place (String.ofList (c :: l))) (List.takeWhile_append_of_pos hrun)
      · exact List.dropWhile_append_of_pos hrun
    refine .bind (.scan (.skip (.bind (.scan (hread.mono ?_ fun _ he => he)))))
    rintro _ _ ⟨⟨place, rfl⟩, rfl⟩
    exact .pure ⟨⟨place, rfl⟩, rfl⟩

/-- What follows the closing of a directive. Of the line feeds there one belongs to the directive, and to the
definition of a variable by a block two, if there are so many: reading leaves the others and what stands
after them. If that is a character that is neither blank nor a marker, the next node is a text that begins
with the line feeds that are left, and wherever the two nodes stand in a sequence or in a macro body, they
stay there side by side. -/
theorem line_feeds_after_closing {r' : Reader} {x : Node} {k : Closing}
    (hx : item readInner n r = .ok (.node x) r') (hk : x.closing? = some k) :
    ∃ u w j rest, r.scanner.pending = u ++ w ++ (List.replicate j '\n' ++ rest) ∧ k.Written w ∧
      rest.head? ≠ some '\n' ∧
      r'.scanner.pending = List.replicate (j - x.lineFeeds) '\n' ++ rest ∧
      ∀ c cs m, rest = c :: cs → isBlank c = false → isPlain c = true →
        ∃ text place s, item readInner (m + 1) r' = .ok (.node text) ⟨s, r'.macros⟩ ∧
          text = .text place
            (String.ofList (List.replicate (j - x.lineFeeds) '\n' ++ c :: cs.takeWhile isPlain)) ∧
          s.pending = cs.dropWhile isPlain ∧
          ∀ raw, [x, text] <:+: raw →
            [x, text] <:+: assemble raw ∧ [x, text] <:+: dropInitialBlank (assemble raw) := by
  obtain ⟨p, ⟨u, hu⟩, hcloses⟩ := ends_item _ _ hx
  obtain ⟨w, after, hw, rfl, hafter⟩ := hcloses x rfl k hk
  obtain ⟨j, rest, rfl, hrest⟩ := exists_lineFeeds after
  rw [dropNewline_iterate hrest] at hafter
  refine ⟨u, w, j, rest, by rw [← hu, List.append_assoc], hw, hrest, hafter, ?_⟩
  rintro c cs m rfl hblank hplain
  have hplains : ∀ d ∈ List.replicate (j - x.lineFeeds) '\n' ++ [c], isPlain d = true := by
    intro d hd
    rcases List.mem_append.1 hd with hd | hd
    · rw [List.eq_of_mem_replicate hd]
      rfl
    · rwa [List.mem_singleton.1 hd]
  have htakes : Takes (item readInner (m + 1)) (List.replicate (j - x.lineFeeds) '\n' ++ [c] ++ cs) _ :=
    takes_plain_item (by simp) hplains
  obtain ⟨_, s, hread, ⟨place, rfl⟩, hs⟩ := htakes r' (by rw [hafter]; simp)
  simp only [List.append_assoc, List.singleton_append] at hread
  refine ⟨_, place, s, hread, rfl, hs, fun raw hraw => infix_assemble ?_ hraw⟩
  intro y hy
  rcases List.mem_pair.1 hy with rfl | rfl
  · exact Node.not_isBlank_of_closing hk
  · simp [Node.isBlank, hblank]

/-- The definition of a variable takes both line feeds after the end of its block. -/
theorem line_feeds_after_definition : ∃ x r',
    item Document.readInside 40 ⟨.ofText "#define($d)a#end\n\nb" none, []⟩ = .ok (.node x) r' ∧
    x.closing? = some .endMark ∧ x.lineFeeds = 2 ∧ r'.scanner.pending = ['b'] ∧
    ∃ u w j rest, (Scanner.ofText "#define($d)a#end\n\nb" none).pending =
        u ++ w ++ (List.replicate j '\n' ++ rest) ∧ Closing.endMark.Written w ∧
      rest.head? ≠ some '\n' ∧
      r'.scanner.pending = List.replicate (j - x.lineFeeds) '\n' ++ rest := by
  have hread : item Document.readInside 40 ⟨.ofText "#define($d)a#end\n\nb" none, []⟩ =
      .ok (.node (.define ⟨none, 1⟩ "d" [.text ⟨none, 1⟩ "a"])) ⟨⟨none, some 'b', none, [], 3⟩, []⟩ := by
    cbv
  obtain ⟨u, w, j, rest, hp, hw, hrest, hleft, -⟩ := line_feeds_after_closing hread rfl
  exact ⟨_, _, hread, rfl, rfl, rfl, u, w, j, rest, hp, hw, hrest, hleft⟩

end Read

end Stencil
