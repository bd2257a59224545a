import Stencil.Proofs.Reading

/-!
# The structure of blocks

A text as a sequence of tokens: plain text, directives that open a block, and markers. A stack machine
says which sequences are well formed, and which marker is the first that has no place: `firstMisplaced`.
The machine is also run on the inside of a block, where it stops at the first marker that is not of an inner
block: `walk`.
-/

namespace Stencil

open Stencil.Text

/-- Text that begins no reference and no directive. -/
structure PlainText where
  chars : List Char
  plain : ∀ c ∈ chars, c ≠ '$' ∧ c ≠ '#'

/-- The directives that open a block. -/
inductive BlockOpener where
  | choice | loop | definition | macroDefinition | bodyCall
  deriving DecidableEq, Repr

/-- A directive as it is written. -/
def BlockOpener.written : BlockOpener → String
  | choice => "#\x7bif\x7d(true)"
  | loop => "#\x7bforeach\x7d($i in $l)"
  | definition => "#\x7bdefine\x7d($d)"
  | macroDefinition => "#\x7bmacro\x7d(m)"
  | bodyCall => "#@m()"

/-- The directives that end a block or begin its next part. -/
inductive Marker where
  | elseIf | otherwise | endBlock
  deriving DecidableEq, Repr

/-- The mark that a marker sets. -/
def Marker.mark : Marker → Mark
  | elseIf => .elseIf
  | otherwise => .otherwise
  | endBlock => .endBlock

/-- The name of a marker as it is written. -/
def Marker.name : Marker → String
  | elseIf => "elseif"
  | otherwise => "else"
  | endBlock => "end"

/-- What stands after the name that sets a mark. -/
def Mark.condition : Mark → String
  | .elseIf => "(true)"
  | _ => ""

/-- A marker as it is written. -/
def Marker.written (m : Marker) : String :=
  "#\x7b" ++ m.name ++ "\x7d" ++ m.mark.condition

/-- One piece of a text. -/
inductive Token where
  | text (t : PlainText)
  | opener (o : BlockOpener)
  | marker (m : Marker)

/-- A token as it is written. -/
def Token.written : Token → String
  | .text t => String.ofList t.chars
  | .opener o => o.written
  | .marker m => m.written

/-- Tokens as they are written. -/
def tokensText : List Token → String
  | [] => ""
  | t :: ts => t.written ++ tokensText ts

/-- A block that is open: a choice that still takes conditions, one that has come to its `#else`, or another
one. -/
inductive OpenBlock where
  | choice | otherwise | other
  deriving DecidableEq, Repr

/-- The block that a directive opens. -/
def BlockOpener.block : BlockOpener → OpenBlock
  | choice => .choice
  | _ => .other

/-- What a marker makes of the innermost open block, if it has a place there: nothing is left of a block
that ends. -/
def OpenBlock.take : OpenBlock → Mark → Option (List OpenBlock)
  | _, .endBlock => some []
  | .choice, .elseIf => some [.choice]
  | .choice, .otherwise => some [.otherwise]
  | _, _ => none

/-- The open blocks after a token, the innermost one first, or the mark that has no place here. -/
def Token.opened : List OpenBlock → Token → Except Mark (List OpenBlock)
  | blocks, .text _ => .ok blocks
  | blocks, .opener o => .ok (o.block :: blocks)
  | [], .marker m => .error m.mark
  | b :: blocks, .marker m =>
    match b.take m.mark with
    | some inner => .ok (inner ++ blocks)
    | none => .error m.mark

/-- The first mark that has no place, with what the text has after it. At the end of the text no block may
be open. -/
def firstMisplaced : List OpenBlock → List Token → Option (Mark × List Token)
  | [], [] => none
  | _ :: _, [] => some (.endOfText, [])
  | blocks, t :: ts =>
    match Token.opened blocks t with
    | .ok blocks' => firstMisplaced blocks' ts
    | .error m => some (m, ts)

/-! ## Runs of text

Texts that stand next to each other are one run of text for reading, and their line ends may meet. -/

namespace PlainText

/-- No text. -/
def empty : PlainText :=
  ⟨[], nofun⟩

/-- Two texts, one after the other. -/
def append (t u : PlainText) : PlainText :=
  ⟨t.chars ++ u.chars, fun c hc => (List.mem_append.1 hc).elim (t.plain c) (u.plain c)⟩

/-- A text with its line ends as line feeds. -/
def unify (t : PlainText) : PlainText where
  chars := unifyNewlines t.chars
  plain := by
    obtain ⟨cs, h⟩ := t
    show ∀ c ∈ unifyNewlines cs, c ≠ '$' ∧ c ≠ '#'
    fun_induction unifyNewlines cs with
    | case1 => exact h
    | case2 rest ih =>
      refine List.forall_mem_cons.2 ⟨by decide, ih fun c hc => h c ?_⟩
      exact List.mem_cons_of_mem _ (List.mem_cons_of_mem _ hc)
    | case3 c rest _ ih =>
      refine List.forall_mem_cons.2 ⟨?_, ih fun d hd => h d (List.mem_cons_of_mem _ hd)⟩
      split
      · decide
      · exact h c List.mem_cons_self

/-- A text without the line feed that it begins with. -/
def dropNewline (t : PlainText) : PlainText where
  chars := Stencil.dropNewline t.chars
  plain := by
    obtain ⟨cs, h⟩ := t
    match cs with
    | [] => exact h
    | c :: cs =>
      show ∀ d ∈ Stencil.dropNewline (c :: cs), d ≠ '$' ∧ d ≠ '#'
      unfold Stencil.dropNewline
      split
      · exact fun d hd => h d (by simp_all)
      · exact h

end PlainText

/-- A directive of a block. -/
inductive Directive where
  | opener (o : BlockOpener)
  | marker (m : Marker)

/-- A directive as it is written. -/
def Directive.written : Directive → String
  | opener o => o.written
  | marker m => m.written

/-- Directives, each with the run of text after it. -/
abbrev TextRuns := List (Directive × PlainText)

/-- The characters of directives and runs. -/
def TextRuns.chars : TextRuns → List Char
  | [] => []
  | (d, t) :: runs => d.written.toList ++ (t.chars ++ chars runs)

/-- Runs with their line ends as line feeds. -/
def TextRuns.unify (runs : TextRuns) : TextRuns :=
  runs.map fun run => (run.1, run.2.unify)

/-- The run of text that tokens begin with, and the directives and runs after it. -/
def runsOf : List Token → PlainText × TextRuns
  | [] => (.empty, [])
  | .text t :: ts => (t.append (runsOf ts).1, (runsOf ts).2)
  | .opener o :: ts => (.empty, (.opener o, (runsOf ts).1) :: (runsOf ts).2)
  | .marker m :: ts => (.empty, (.marker m, (runsOf ts).1) :: (runsOf ts).2)

/-- Line ends do not meet across another character. -/
theorem unifyNewlines_append_cons {c : Char} (hc : c ≠ '\n') (cs ds : List Char) :
    unifyNewlines (cs ++ c :: ds) = unifyNewlines cs ++ unifyNewlines (c :: ds) := by
  fun_induction unifyNewlines cs with
  | case1 => rfl
  | case2 rest ih => simp [unifyNewlines, ih]
  | case3 d rest hd ih =>
    rw [List.cons_append, List.cons_append, ← ih]
    refine unifyNewlines.eq_3 d (rest ++ c :: ds) fun rest' hreturn hrest => ?_
    cases rest with
    | nil => exact hc (List.cons.inj hrest).1
    | cons e rest => exact hd rest hreturn (congrArg (· :: rest) (List.cons.inj hrest).1)

theorem unifyNewlines_append_of_no_return {cs : List Char} (h : '\r' ∉ cs) (ds : List Char) :
    unifyNewlines (cs ++ ds) = cs ++ unifyNewlines ds := by
  induction cs with
  | nil => rfl
  | cons c cs ih =>
    simp only [List.mem_cons, not_or] at h
    rw [List.cons_append, unifyNewlines.eq_3 _ _ fun _ hc _ => h.1 hc.symm, if_neg (Ne.symm h.1), ih h.2,
      List.cons_append]

theorem Marker.toList_written (m : Marker) :
    m.written.toList = '#' :: '\x7b' :: (m.name.toList ++ '\x7d' :: m.mark.condition.toList) := by
  simp [written]

/-- A directive begins with a hash sign and has no carriage return. -/
theorem written_eq_cons (d : Directive) : ∃ cs, d.written.toList = '#' :: cs ∧ '\r' ∉ d.written.toList := by
  rcases d with o | m
  · cases o <;> exact ⟨_, String.toList_ofList, by decide⟩
  · refine ⟨_, m.toList_written, ?_⟩
    rw [Directive.written, m.toList_written]
    cases m <;> decide

theorem chars_unify (t : PlainText) (runs : TextRuns) :
    unifyNewlines (t.chars ++ TextRuns.chars runs) = t.unify.chars ++ TextRuns.chars runs.unify := by
  induction runs generalizing t with
  | nil => simp [TextRuns.chars, TextRuns.unify, PlainText.unify]
  | cons run runs ih =>
    obtain ⟨d, u⟩ := run
    obtain ⟨cs, hcs, hreturn⟩ := written_eq_cons d
    have hrest : unifyNewlines (d.written.toList ++ (u.chars ++ TextRuns.chars runs)) =
        d.written.toList ++ (u.unify.chars ++ TextRuns.chars (TextRuns.unify runs)) := by
      rw [unifyNewlines_append_of_no_return hreturn, ih]
    rw [TextRuns.chars, hcs, List.cons_append, unifyNewlines_append_cons (by decide), ← List.cons_append, ← hcs, hrest]
    rfl

theorem toList_tokensText (ts : List Token) :
    (tokensText ts).toList = (runsOf ts).1.chars ++ TextRuns.chars (runsOf ts).2 := by
  induction ts with
  | nil => rfl
  | cons t ts ih =>
    rw [tokensText, String.toList_append, ih]
    cases t with
    | text t => 
      rw [Token.written, String.toList_ofList, ← List.append_assoc]
      rfl
    | opener o => rfl
    | marker m => rfl

/-- The characters that reading gets to see of tokens. -/
theorem unifyNewlines_tokensText (ts : List Token) :
    unifyNewlines (tokensText ts).toList =
      (runsOf ts).1.unify.chars ++ TextRuns.chars (runsOf ts).2.unify := by
  rw [toList_tokensText, chars_unify]

/-! ## The inside of a block -/

/-- A run of text, and directives and runs after it. -/
abbrev Remainder := PlainText × TextRuns

/-- How the run of the machine on the inside of a block ends: at a mark that is of no inner block, or at one
that has no place in an inner block. Both have the remainder after the mark. -/
inductive Walk where
  | ends (m : Mark) (rest : Remainder)
  | rejects (m : Mark) (rest : Remainder)

/-- Runs the machine on the inside of a block, of which some inner blocks are open. -/
def walk : List OpenBlock → TextRuns → Walk
  | [], [] => .ends .endOfText (.empty, [])
  | _ :: _, [] => .rejects .endOfText (.empty, [])
  | blocks, (.opener o, _) :: runs => walk (o.block :: blocks) runs
  | [], (.marker m, t) :: runs => .ends m.mark (t, runs)
  | b :: blocks, (.marker m, t) :: runs =>
    match b.take m.mark with
    | some inner => walk (inner ++ blocks) runs
    | none => .rejects m.mark (t, runs)

theorem OpenBlock.take_endOfText (b : OpenBlock) : b.take .endOfText = none := by
  cases b <;> rfl

/-- The machine on a block is the machine on its inside, and then what the block makes of the mark there. -/
theorem walk_append (blocks : List OpenBlock) (b : OpenBlock) (runs : TextRuns) :
    walk (blocks ++ [b]) runs =
      match walk blocks runs with
      | .ends m rest =>
        match b.take m with
        | some inner => walk inner rest.2
        | none => .rejects m rest
      | .rejects m rest => .rejects m rest := by
  induction runs generalizing blocks with
  | nil => cases blocks <;> simp [walk, b.take_endOfText]
  | cons run runs ih =>
    obtain ⟨d | m, t⟩ := run
    · cases blocks with
      | nil => exact ih [_]
      | cons b' blocks => exact ih (_ :: b' :: blocks)
    · cases blocks with
      | nil => simp [walk]
      | cons b' blocks =>
        simp only [List.cons_append, walk]
        cases b'.take m.mark with
        | none => rfl
        | some inner =>
          dsimp only
          rw [← List.append_assoc, ih]

theorem walk_ends_length {blocks : List OpenBlock} {runs : TextRuns} {m : Mark} {rest : Remainder}
    (h : walk blocks runs = .ends m rest) : rest.2.length ≤ runs.length ∧
      (m ≠ .endOfText → rest.2.length < runs.length) := by
  induction runs generalizing blocks with
  | nil =>
    cases blocks with
    | nil => cases h; exact ⟨Nat.le_refl _, fun hm => absurd rfl hm⟩
    | cons b blocks => cases h
  | cons run runs ih =>
    rw [List.length_cons]
    obtain ⟨d | mk, t⟩ := run
    · have hopened : walk (d.block :: blocks) runs = .ends m rest := by cases blocks <;> exact h
      have := ih hopened
      omega
    · cases blocks with
      | nil =>
        cases h
        exact ⟨Nat.le_succ _, fun _ => Nat.lt_succ_self _⟩
      | cons b blocks =>
        rw [walk] at h
        split at h
        · have := ih h
          omega
        · cases h

/-- The machine on tokens is the machine on their directives. -/
theorem walk_runsOf (blocks : List OpenBlock) (ts : List Token) :
    match firstMisplaced blocks ts with
    | none => walk blocks (TextRuns.unify (runsOf ts).2) = .ends .endOfText (.empty, [])
    | some (m, rest) =>
      let after := ((runsOf rest).1.unify, TextRuns.unify (runsOf rest).2)
      (m ≠ .endOfText ∧ walk blocks (TextRuns.unify (runsOf ts).2) = .ends m after) ∨
        walk blocks (TextRuns.unify (runsOf ts).2) = .rejects m after := by
  induction ts generalizing blocks with
  | nil =>
    cases blocks with
    | nil => rfl
    | cons b blocks => exact .inr rfl
  | cons t ts ih =>
    cases t with
    | text t =>
      have := ih blocks
      rwa [firstMisplaced, Token.opened]
    | opener o =>
      have := ih (o.block :: blocks)
      have hwalk : walk blocks (TextRuns.unify (runsOf (.opener o :: ts)).2) =
          walk (o.block :: blocks) (TextRuns.unify (runsOf ts).2) := by
        cases blocks <;> rfl
      rwa [firstMisplaced, Token.opened, hwalk]
    | marker m =>
      rw [firstMisplaced]
      cases blocks with
      | nil => exact .inl ⟨by cases m <;> nofun, rfl⟩
      | cons b blocks =>
        have hwalk : walk (b :: blocks) (TextRuns.unify (runsOf (.marker m :: ts)).2) =
            match b.take m.mark with
            | some inner => walk (inner ++ blocks) (TextRuns.unify (runsOf ts).2)
            | none => .rejects m.mark ((runsOf ts).1.unify, TextRuns.unify (runsOf ts).2) := rfl
        rw [Token.opened, hwalk]
        cases b.take m.mark with
        | some inner => exact ih (inner ++ blocks)
        | none => exact .inr rfl

end Stencil
