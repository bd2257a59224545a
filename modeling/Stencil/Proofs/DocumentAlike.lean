import Stencil.Proofs.Agree
import Stencil.Proofs.ReadAlike

/-!
# Reading a template under two names

A template read under two names of a resource gives documents that differ in places only, or is refused
under both: `likeRead_read`. So the places of two directives that read a text do not matter for what they
read.
-/

namespace Stencil

open Stencil.Text

namespace Scan

variable {free : Bool} {α : Type} {A : α → α → Prop} {readInner readInner' : ReadInner}

theorem alike_plainText (start : List Char) :
    Alike free (LikeNode false) (plainText start) (plainText start) :=
  alike_then (alike_takeWhile _) fun _ => .bind alike_here fun p p' _ => .pure (.text (p.like_any p'))

theorem alike_lineComment : Alike free (LikeNode false) lineComment lineComment :=
  .bind alike_here fun p p' _ => alike_then (alike_takeWhile _) fun _ => alike_then alike_skip fun _ =>
    .pure (.comment (p.like_any p'))

theorem alike_blockComment : Alike free (LikeNode false) blockComment blockComment :=
  .bind alike_here fun p p' _ => alike_then alike_skip fun _ =>
    alike_then (alike_change (fun r s => s.advanceBy_rename r _) fun _ h => h.advanceBy _) fun _ =>
      .pure (.comment (p.like_any p'))

theorem alike_verbatim : Alike free (LikeNode false) verbatim verbatim := by
  refine alike_then alike_skip fun _ => alike_match fun _ _ => alike_ite ?_ (alike_plainText _)
  refine .bind alike_here fun _ _ _ => alike_then alike_skip fun _ =>
    .bind (B := fun s s' => s.pending = s'.pending) ?_ fun s s' hs => ?_
  · rintro s s' ⟨⟨r, rfl⟩, h⟩
    exact ⟨rfl, ⟨r, rfl⟩, h⟩
  · rw [← hs]
    split
    · exact .throw .error
    · exact alike_then (alike_change (fun r s => s.advanceBy_rename r _) fun _ h => h.advanceBy _)
        fun _ => .bind alike_here fun p p' _ => .pure (.text (p.like_any p'))

theorem alike_close (allowed : List Mark) (inside inside' : Enclosure) (found : Mark) :
    Alike free Eq (close allowed inside found) (close allowed inside' found) :=
  alike_ite (.pure rfl) alike_fail

theorem alike_directiveName : Alike free Eq directiveName directiveName :=
  alike_match fun _ _ => alike_ite
    (alike_then alike_skip fun _ => alike_then (alike_name _) fun _ => alike_then (alike_expect _) fun _ =>
      .pure rfl)
    (alike_name _)

theorem alike_parameters (n : Nat) : Alike free Eq (parameters n) (parameters n) := by
  induction n with
  | zero => exact alike_exhausted
  | succ n ih =>
    have hname : Alike free Eq (do let p ← name "Macro parameter name"; return p :: (← parameters n))
        (do let p ← name "Macro parameter name"; return p :: (← parameters n)) :=
      alike_then (alike_name _) fun _ => alike_then ih fun _ => .pure rfl
    have hparam : Alike free Eq
        (do
          if (← peek) ≠ some '$' then fail .parameter
          skip
          let p ← name "Macro parameter name"
          return p :: (← parameters n))
        (do
          if (← peek) ≠ some '$' then fail .parameter
          skip
          let p ← name "Macro parameter name"
          return p :: (← parameters n)) :=
      alike_match fun _ _ => alike_unless <| alike_then alike_skip fun _ => hname
    exact alike_then alike_skipBlanks fun _ => alike_match fun _ _ => alike_ite
      (alike_then alike_skip fun _ => .pure rfl)
      (alike_match fun _ _ => alike_ite
        (alike_then alike_skip fun _ => alike_then alike_skipBlanks fun _ => hparam) hparam)

/-- What follows a variable of a loop, which a reference without suffixes is, and nothing else. -/
theorem alike_loopVariable {f : String → Scan α} (hf : ∀ x, Alike free A (f x) (f x)) {g : Scan α}
    (hg : Alike free A g g) {e e' : Node} : LikeNode false e e' →
    Alike free A
      (match e with
      | .output (.reference _ x _ []) => f x
      | _ => g)
      (match e' with
      | .output (.reference _ x _ []) => f x
      | _ => g) := by
  intro he
  cases he with
  | output he =>
    cases he with
    | reference _ hss =>
      cases hss with
      | nil => exact hf _
      | cons _ _ => exact hg
    | _ => exact hg
  | _ => exact hg

variable (h : SameInner free readInner readInner')
include h

theorem alike_dollar (n : Nat) :
    Alike free (LikeNode false) (dollar readInner n) (dollar readInner' n) := by
  have hreference : ∀ quiet, Alike free (LikeNode false)
      (do return .output (← reference readInner n quiet))
      (do return .output (← reference readInner' n quiet)) := fun quiet =>
    .map (alike_reference h n quiet) fun _ _ he => .output he
  have hbraces : ∀ quiet, Alike free (LikeNode false)
      (do
        let e ← reference readInner n quiet
        expect '}'
        return .output e)
      (do
        let e ← reference readInner' n quiet
        expect '}'
        return .output e) := fun quiet =>
    .bind (alike_reference h n quiet) fun _ _ he => alike_then (alike_expect _) fun _ => .pure (.output he)
  have hrest : ∀ (quiet : Bool) (start : List Char), Alike free (LikeNode false)
      (do
        if (← peek) = some '{' then
          skip
          if ← sees isLetter then
            let e ← reference readInner n quiet
            expect '}'
            return .output e
          else plainText (start ++ ['{'])
        else if ← sees isLetter then
          return .output (← reference readInner n quiet)
        else plainText start)
      (do
        if (← peek) = some '{' then
          skip
          if ← sees isLetter then
            let e ← reference readInner' n quiet
            expect '}'
            return .output e
          else plainText (start ++ ['{'])
        else if ← sees isLetter then
          return .output (← reference readInner' n quiet)
        else plainText start) := fun quiet start =>
    alike_match fun _ _ => alike_ite
      (alike_then alike_skip fun _ => alike_then (alike_sees _) fun _ =>
        alike_ite (hbraces quiet) (alike_plainText _))
      (alike_then (alike_sees _) fun _ => alike_ite (hreference quiet) (alike_plainText _))
  refine alike_then alike_skip fun _ => alike_match fun _ _ => ?_
  exact alike_optional (hrest _ _)

theorem alike_callArguments (n : Nat) :
    Alike free (LikeExprs false) (callArguments readInner n) (callArguments readInner' n) := by
  induction n with
  | zero => exact alike_exhausted
  | succ n ih =>
    exact alike_then alike_skipBlanks fun _ => alike_match fun _ _ => alike_ite
      (alike_then alike_skip fun _ => .pure .nil)
      (.bind (alike_primary h n false) fun _ _ he => alike_match fun _ _ => alike_optional <|
        .map ih fun _ _ hes => .cons he hes)

theorem alike_assignment (n : Nat) :
    Alike free (LikeNode false) (assignment readInner n) (assignment readInner' n) :=
  alike_then (alike_expect _) fun _ => alike_then (alike_expect _) fun _ =>
    alike_then (alike_name _) fun _ => alike_then (alike_expect _) fun _ =>
      .bind (alike_expr h n) fun _ _ he => alike_then (alike_expect _) fun _ => .pure (.assign he)

theorem alike_parenthesised (n : Nat) :
    Alike free (LikeExpr false) (parenthesised readInner n) (parenthesised readInner' n) :=
  alike_then (alike_expect _) fun _ => .bind (alike_primary h n false) fun _ _ he =>
    alike_then (alike_expect _) fun _ => .pure he

theorem alike_leave (n : Nat) : Alike free (LikeNode false) (leave readInner n) (leave readInner' n) :=
  alike_then alike_skipBlanks fun _ => alike_match fun _ _ => alike_ite
    (alike_then alike_skip fun _ => .bind (alike_primary h n false) fun _ _ he =>
      alike_then (alike_expect _) fun _ => .bind alike_here fun p p' _ =>
        .pure (.leaveScope (p.like_any p') he))
    (.bind alike_here fun p p' _ => .pure (.leave (p.like_any p')))

theorem alike_loopHead (n : Nat) : Alike free Eq (loopHead readInner n) (loopHead readInner' n) :=
  alike_then (alike_expect _) fun _ => alike_then alike_skipBlanks fun _ => alike_match fun _ _ =>
    alike_unless <| .bind (alike_dollar h n) fun _ _ he => alike_loopVariable
      (fun _ => alike_then alike_skipBlanks fun _ => alike_match fun _ _ => alike_ite
        (alike_then alike_skip fun _ => alike_match fun _ _ => alike_ite
          (alike_then alike_skip fun _ => .pure rfl) alike_fail)
        alike_fail)
      alike_fail he

end Scan

/-! ### Sequences of nodes -/

section Sequences

variable {strict : Bool} {n n' : Node} {ns ns' : List Node}

theorem LikeNode.isBlank_eq (h : LikeNode strict n n') : n.isBlank = n'.isBlank := by
  cases h <;> rfl

theorem LikeNode.isBlankOnLine_eq (h : LikeNode strict n n') : n.isBlankOnLine = n'.isBlankOnLine := by
  cases h <;> rfl

theorem LikeNode.isReference_eq (h : LikeNode strict n n') : n.isReference = n'.isReference := by
  cases h with
  | output he => cases he <;> rfl
  | _ => rfl

theorem LikeNode.isDirective_eq (h : LikeNode strict n n') : n.isDirective = n'.isDirective := by
  cases h <;> rfl

theorem LikeNode.isComment_eq (h : LikeNode strict n n') : n.isComment = n'.isComment := by
  cases h <;> rfl

theorem LikeNode.isAssign_eq (h : LikeNode strict n n') : n.isAssign = n'.isAssign := by
  cases h <;> rfl

theorem likeNodes_iff : LikeNodes strict ns ns' ↔ List.Forall₂ (LikeNode strict) ns ns' := by
  constructor
  · intro h
    induction ns generalizing ns' with
    | nil =>
      cases h
      exact .nil
    | cons n ns ih =>
      cases h with
      | cons hn hns => exact .cons hn (ih hns)
  · intro h
    induction h with
    | nil => exact .nil
    | cons hn _ ih => exact .cons hn ih

theorem LikeNodes.reverse (h : LikeNodes strict ns ns') : LikeNodes strict ns.reverse ns'.reverse :=
  likeNodes_iff.2 (List.rel_reverse (likeNodes_iff.1 h))

theorem LikeNodes.givesWay_eq (h : LikeNodes strict ns ns') : givesWay ns = givesWay ns' := by
  cases h with
  | nil => rfl
  | cons hspace h =>
    cases h with
    | nil => exact hspace.isBlankOnLine_eq
    | cons hbefore _ =>
      rw [givesWay, givesWay, hspace.isBlankOnLine_eq, hspace.isBlank_eq, hbefore.isReference_eq,
        hbefore.isComment_eq, hbefore.isDirective_eq]

theorem LikeNodes.addNode (h : LikeNodes strict ns ns') (hn : LikeNode strict n n') :
    LikeNodes strict (addNode ns n) (addNode ns' n') := by
  rw [Stencil.addNode, Stencil.addNode, hn.isAssign_eq, h.givesWay_eq]
  split
  · refine .cons hn ?_
    cases h with
    | nil => exact .nil
    | cons _ h => exact h
  · exact .cons hn h

theorem LikeNodes.dropInitialBlank (h : LikeNodes strict ns ns') :
    LikeNodes strict (dropInitialBlank ns) (dropInitialBlank ns') := by
  cases h with
  | nil => exact .nil
  | cons hspace h =>
    cases h with
    | nil => exact .cons hspace .nil
    | cons hnext h =>
      rw [Stencil.dropInitialBlank, Stencil.dropInitialBlank, hspace.isBlank_eq, hnext.isAssign_eq]
      split
      · exact .cons hnext h
      · exact .cons hspace (.cons hnext h)

theorem likeMacro_addMacro {ms ms' : List MacroDef} (h : List.Forall₂ (LikeMacro strict) ms ms')
    {m m' : MacroDef} (hm : LikeMacro strict m m') :
    List.Forall₂ (LikeMacro strict) (addMacro ms m) (addMacro ms' m') := by
  have hfind := likeMacro_find h m.name
  rw [addMacro, addMacro, ← hm.name]
  generalize findMacro? ms m.name = o at hfind
  generalize findMacro? ms' m.name = o' at hfind
  cases hfind with
  | some _ => exact h
  | none => exact List.rel_append h (.cons hm .nil)

end Sequences

/-! ### Nodes -/

/-- Readers at one position of a text, under two names, that have met macros that are alike. -/
structure Reader.Beside (free : Bool) (r r' : Reader) : Prop where
  scanner : Scanner.Beside free r.scanner r'.scanner
  macros : List.Forall₂ (LikeMacro false) r.macros r'.macros

/-- What stands at one place of a sequence, differing in places only. -/
inductive LikeItem : Item → Item → Prop
  | node {n n'} (hn : LikeNode false n n') : LikeItem (.node n) (.node n')
  | mark {m} : LikeItem (.mark m) (.mark m)

/-- Sequences that end at the same mark. -/
abbrev LikeSequence (p p' : List Node × Mark) : Prop :=
  LikeNodes false p.1 p'.1 ∧ p.2 = p'.2

namespace Read

open Scan hiding exhausted

variable {free : Bool} {α β : Type} {A : α → α → Prop} {readInner readInner' : ReadInner}

/-- Whether two steps of reading nodes go side by side in a text that is read under two names. -/
abbrev Alike (free : Bool) (A : α → α → Prop) (x x' : Read α) : Prop :=
  Parallel (Reader.Beside free) A x x'

/-- A step on the scanner defines no macro. -/
theorem alike_scan {x x' : Scan α} (hx : Scan.Alike free A x x') :
    Alike free A (scan x) (scan x') := by
  intro r r' h
  have hx := hx r.scanner r'.scanner h.scanner
  rw [scan, scan]
  generalize x r.scanner = y at hx
  generalize x' r'.scanner = y' at hx
  cases y with
  | ok a t =>
    cases y' with
    | ok a' t' => exact ⟨hx.1, hx.2, h.macros⟩
    | error _ _ => exact hx.elim
  | error e t =>
    cases y' with
    | ok a' t' => exact hx.elim
    | error _ _ => exact hx

theorem alike_exhausted : Alike free A exhausted exhausted :=
  fun _ _ _ => .exhausted

/-- Goes on alike after steps on the scanner that give the same. -/
theorem alike_after {x x' : Scan β} (hx : Scan.Alike free Eq x x') {f f' : β → Read α}
    (hf : ∀ b, Alike free A (f b) (f' b)) : Alike free A (scan x >>= f) (scan x' >>= f') := by
  refine .bind (alike_scan hx) fun b b' hb => ?_
  rw [← hb]
  exact hf b

/-- What is decided by the current character is decided alike. -/
theorem alike_at {f f' : Option Char → Read α} (hf : ∀ c, Alike free A (f c) (f' c)) :
    Alike free A (scan peek >>= f) (scan peek >>= f') := by
  refine .bind (alike_scan alike_peek) fun c c' hc => ?_
  rw [← hc.1]
  exact hf c

theorem alike_node {x x' : Scan Node} (hx : Scan.Alike free (LikeNode false) x x') :
    Alike free LikeItem (do return .node (← scan x)) (do return .node (← scan x')) :=
  .map (alike_scan hx) fun _ _ hn => .node hn

theorem alike_define {m m' : MacroDef} (hm : LikeMacro false m m') :
    Alike free Eq (define m) (define m') :=
  fun _ _ h => ⟨rfl, h.scanner, likeMacro_addMacro h.macros hm⟩

mutual

theorem alike_nodes (h : SameInner free readInner readInner') : (n : Nat) → {done done' : List Node} →
    LikeNodes false done done' →
    Alike free LikeSequence (nodes readInner n done) (nodes readInner' n done')
  | 0, _, _, _ => alike_exhausted
  | n + 1, _, _, hd => .bind (alike_item h n) fun _ _ hi => by
    cases hi with
    | mark => exact .pure ⟨hd.reverse, rfl⟩
    | node hn => exact alike_nodes h n (hd.addNode hn)

theorem alike_block (h : SameInner free readInner readInner') : (n : Nat) → (allowed : List Mark) →
    (inside inside' : Enclosure) →
    Alike free LikeSequence (block readInner n allowed inside) (block readInner' n allowed inside')
  | 0, _, _, _ => alike_exhausted
  | n + 1, allowed, inside, inside' => alike_after alike_skipNewline fun _ =>
    .bind (alike_nodes h n .nil) fun p p' hp => by
      obtain ⟨body, m⟩ := p
      obtain ⟨body', m'⟩ := p'
      obtain ⟨hbody, rfl⟩ := hp
      exact .bind (alike_scan (alike_close allowed inside inside' m)) fun _ _ _ => .pure ⟨hbody, rfl⟩

theorem alike_item (h : SameInner free readInner readInner') : (n : Nat) →
    Alike free LikeItem (item readInner n) (item readInner' n)
  | 0 => alike_exhausted
  | n + 1 => by
    refine alike_at fun c => ?_
    split
    · exact .pure .mark
    · refine alike_after alike_skip fun _ => alike_at fun c => ?_
      split
      · exact alike_node alike_lineComment
      · exact alike_node alike_blockComment
      · exact alike_node alike_verbatim
      · exact alike_directive h n
      · refine alike_after alike_skip fun _ => alike_after (alike_sees _) fun _ => ?_
        split
        · exact alike_after (alike_name _) fun _ => .map (alike_macroCall h n _ _) fun _ _ hn => .node hn
        · exact alike_node (alike_plainText _)
      · split
        · exact alike_directive h n
        · exact alike_node (alike_plainText _)
      · exact alike_node (alike_plainText _)
    · exact alike_node (alike_dollar h n)
    · exact alike_after alike_skip fun _ => alike_node (alike_plainText _)

theorem alike_directive (h : SameInner free readInner readInner') : (n : Nat) →
    Alike free LikeItem (directive readInner n) (directive readInner' n)
  | 0 => alike_exhausted
  | n + 1 => by
    refine alike_after alike_directiveName fun d => ?_
    have hmark : ∀ m, Alike free LikeItem (do scan skipNewline; return .mark m)
        (do scan skipNewline; return .mark m) := fun m =>
      alike_after alike_skipNewline fun _ => .pure .mark
    split
    · exact hmark _
    · exact hmark _
    · exact hmark _
    · exact .map (alike_choice h n _) fun _ _ hn => .node hn
    · exact .map (alike_loop h n) fun _ _ hn => .node hn
    · exact alike_node (alike_leave h n)
    · exact .bind (alike_scan (alike_assignment h n)) fun _ _ hn =>
        alike_after alike_skipNewline fun _ => .pure (.node hn)
    · exact .bind (alike_definition h n) fun _ _ hn =>
        alike_after alike_skipNewline fun _ => .pure (.node hn)
    · exact .bind (alike_scan alike_here) fun p p' _ => .bind (alike_scan (alike_parenthesised h n))
        fun _ _ he => alike_after alike_skipNewline fun _ => .pure (.node (.parse (p.like_any p') he))
    · exact .map (alike_macroDefinition h n) fun _ _ hn => .node hn
    · exact .bind (alike_scan alike_here) fun p p' _ => .bind (alike_scan (alike_parenthesised h n))
        fun _ _ he => alike_after alike_skipNewline fun _ => .pure (.node (.evaluate (p.like_any p') he))
    · exact .bind (alike_macroCall h n _ _) fun _ _ hn =>
        alike_after alike_skipNewline fun _ => .pure (.node hn)

theorem alike_choice (h : SameInner free readInner readInner') : (n : Nat) → (opener : String) →
    Alike free (LikeNode false) (choice readInner n opener) (choice readInner' n opener)
  | 0, _ => alike_exhausted
  | n + 1, opener => by
    refine .bind (alike_scan alike_here) fun p p' _ => alike_after (alike_expect _) fun _ =>
      .bind (alike_scan (alike_expr h n)) fun c c' hc => alike_after (alike_expect _) fun _ =>
        .bind (alike_block h n _ _ _) fun b b' hb => ?_
    obtain ⟨yes, m⟩ := b
    obtain ⟨yes', m'⟩ := b'
    obtain ⟨hyes, rfl⟩ := hb
    dsimp only
    split
    · exact .map (alike_choice h n _) fun _ _ hn => .choose (p.like_any p') hc hyes hn
    · refine .bind (alike_scan alike_here) fun q q' _ => .bind (alike_nodes h n .nil) fun b b' hb => ?_
      obtain ⟨no, m⟩ := b
      obtain ⟨no', m'⟩ := b'
      obtain ⟨hno, rfl⟩ := hb
      exact .bind (alike_scan (alike_close _ _ _ m)) fun _ _ _ =>
        .pure (.choose (p.like_any p') hc hyes (.sequence (q.like_any q') hno))
    · exact .bind (alike_scan alike_here) fun q q' _ =>
        .pure (.choose (p.like_any p') hc hyes (.sequence (q.like_any q') .nil))

theorem alike_loop (h : SameInner free readInner readInner') : (n : Nat) →
    Alike free (LikeNode false) (loop readInner n) (loop readInner' n)
  | 0 => alike_exhausted
  | n + 1 => .bind (alike_scan alike_here) fun p p' _ => alike_after (alike_loopHead h n) fun _ =>
    .bind (alike_scan (alike_expr h n)) fun _ _ he => alike_after (alike_expect _) fun _ =>
      .bind (alike_block h n _ _ _) fun _ _ hb => .pure (.foreach (p.like_any p') he hb.1)

theorem alike_definition (h : SameInner free readInner readInner') : (n : Nat) →
    Alike free (LikeNode false) (definition readInner n) (definition readInner' n)
  | 0 => alike_exhausted
  | n + 1 => .bind (alike_scan alike_here) fun p p' _ => alike_after (alike_expect _) fun _ =>
    alike_after (alike_expect _) fun _ => alike_after (alike_name _) fun _ =>
      alike_after (alike_expect _) fun _ =>
        .bind (alike_block h n _ _ _) fun _ _ hb => .pure (.define (p.like_any p') hb.1)

theorem alike_macroDefinition (h : SameInner free readInner readInner') : (n : Nat) →
    Alike free (LikeNode false) (macroDefinition readInner n) (macroDefinition readInner' n)
  | 0 => alike_exhausted
  | n + 1 => .bind (alike_scan alike_here) fun p p' _ => alike_after (alike_expect _) fun _ =>
    alike_after alike_skipBlanks fun _ => alike_after (alike_name _) fun _ =>
      alike_after (alike_parameters n) fun _ => .bind (alike_block h n _ _ _) fun _ _ hb =>
        .bind (alike_define ⟨p.like_any p', rfl, rfl, hb.1.dropInitialBlank⟩) fun _ _ _ =>
          .bind (alike_scan alike_here) fun q q' _ => .pure (.sequence (q.like_any q') .nil)

theorem alike_macroCall (h : SameInner free readInner readInner') : (n : Nat) → (hasBody : Bool) →
    (x : String) →
    Alike free (LikeNode false) (macroCall readInner n hasBody x) (macroCall readInner' n hasBody x)
  | 0, _, _ => alike_exhausted
  | n + 1, hasBody, x => by
    refine .bind (alike_scan alike_here) fun p p' hp => alike_after (alike_takeWhile _) fun _ =>
      alike_at fun c => ?_
    split
    · refine alike_after alike_skip fun _ => .bind (alike_scan (alike_callArguments h n))
        fun args args' hargs => ?_
      split
      · refine .bind (alike_block h n _ _ _) fun b b' hb => .bind (alike_scan alike_here) fun q q' _ => ?_
        rw [hp]
        exact .pure (.callWith (q.like_any q') hargs hb.1)
      · exact .bind (alike_scan alike_here) fun q q' _ => .pure (.call (q.like_any q') hargs)
    · split
      · exact alike_scan alike_fail
      · split
        · exact alike_scan alike_fail
        · exact alike_scan (alike_plainText _)

end

theorem alike_document (h : SameInner free readInner readInner') (n : Nat) :
    Alike free (LikeNodes false) (document readInner n) (document readInner' n) :=
  .bind (alike_nodes h n .nil) fun p p' hp => by
    obtain ⟨body, m⟩ := p
    obtain ⟨body', m'⟩ := p'
    obtain ⟨hbody, rfl⟩ := hp
    exact .bind (alike_scan (alike_close _ _ _ m)) fun _ _ _ => .pure hbody

end Read

/-! ### Texts -/

theorem mem_of_mem_unifyNewlines {c : Char} (hc : c ≠ '\n') {cs : List Char}
    (h : c ∈ unifyNewlines cs) : c ∈ cs := by
  fun_induction unifyNewlines cs with
  | case1 => exact h
  | case2 rest ih =>
    rcases List.mem_cons.1 h with h | h
    · exact absurd h hc
    · exact List.mem_cons_of_mem _ (List.mem_cons_of_mem _ (ih h))
  | case3 d rest _ ih =>
    rcases List.mem_cons.1 h with h | h
    · split at h
      · exact absurd h hc
      · exact List.mem_cons.2 (.inl h)
    · exact List.mem_cons_of_mem _ (ih h)

theorem Scanner.quoteless_ofText {text : String} (h : '"' ∉ text.toList) (r : Option String) :
    (Scanner.ofText text r).Quoteless :=
  Scanner.Quoteless.take ⟨nofun, nofun, fun hc => h (mem_of_mem_unifyNewlines (by decide) hc)⟩

namespace Document

/-- A text is read alike under any two names, whatever reads the insides of literals where it has no double
quote. -/
theorem likeRead_readWith {free : Bool} {readInner readInner' : ReadInner}
    (h : SameInner free readInner readInner') (text : String) (hfree : free = true → '"' ∉ text.toList)
    (r r' : Option String) :
    LikeRead (LikeDocument false) (readWith readInner r text) (readWith readInner' r' text) := by
  have hbeside : Scanner.Beside free (Scanner.ofText text r) (Scanner.ofText text r') :=
    ⟨⟨r', Scanner.take_rename r' ⟨r, none, none, unifyNewlines text.toList, 1⟩⟩,
      fun hf => Scanner.quoteless_ofText (hfree hf) r⟩
  have hfuel : fuelFor (Scanner.ofText text r) = fuelFor (Scanner.ofText text r') := by
    rw [fuelFor, fuelFor, Scanner.pending_ofText, Scanner.pending_ofText]
  have hread := Read.alike_document h (fuelFor (Scanner.ofText text r)) ⟨Scanner.ofText text r, []⟩
    ⟨Scanner.ofText text r', []⟩ ⟨hbeside, .nil⟩
  rw [readWith, readWith, ← hfuel]
  generalize Read.document readInner (fuelFor (Scanner.ofText text r)) ⟨Scanner.ofText text r, []⟩ = x
    at hread
  generalize Read.document readInner' (fuelFor (Scanner.ofText text r)) ⟨Scanner.ofText text r', []⟩ = x'
    at hread
  cases x with
  | ok body t =>
    cases x' with
    | ok body' t' => exact .ok ⟨hread.1, hread.2.macros⟩
    | error _ _ => exact hread.elim
  | error e t =>
    cases x' with
    | ok body' t' => exact hread.elim
    | error _ _ => exact .error hread

/-- Below the insides of literals there is nothing more to read in double quotes. -/
theorem likeInner_readInside : LikeInner readInside readInside := by
  intro name name' text
  have hnone : SameInner false (fun _ _ => .error .exhausted) (fun _ _ => .error .exhausted) :=
    fun _ _ _ _ => .error .exhausted
  exact (likeRead_readWith hnone text nofun (some name) (some name')).map fun _ _ hd => hd.nodes

/-- A text is read alike under any two names. -/
theorem likeRead_read (r r' : Option String) (text : String) :
    LikeRead (LikeDocument false) (read r text) (read r' text) :=
  have hinside : SameInner false readInside readInside := fun _ => likeInner_readInside
  likeRead_readWith hinside text nofun r r'

/-- A text without double quotes is read inside a text literal as it is read by itself. -/
theorem likeRead_readInside {text : String} (h : '"' ∉ text.toList) (r : Option String) (name : String) :
    LikeRead (LikeNodes false) ((read r text).map (·.nodes)) (readInside name text) := by
  have hnone : SameInner true readInside (fun _ _ => .error .exhausted) := nofun
  exact (likeRead_readWith hnone text (fun _ => h) r (some name)).map fun _ _ hd => hd.nodes

end Document

/-- The places of two directives that read a text do not matter for what they read. -/
theorem readsAlike (strict : Bool) : ReadsAlike strict := by
  cases strict with
  | true => exact .inl rfl
  | false =>
    refine .inr fun r r' text => ?_
    have hread := Document.likeRead_read r r' text
    generalize Document.read r text = x at hread
    generalize Document.read r' text = x' at hread
    cases hread with
    | ok hd => exact .ok hd
    | error he =>
      cases he with
      | error => exact .error (.failure nofun)
      | exhausted => exact .error .exhausted

end Stencil
