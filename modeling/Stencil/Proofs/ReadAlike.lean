import Stencil.Proofs.Twins

/-!
# Reading a text under two names

A text read under two names of a resource gives trees that differ in places only, or is refused under
both. The name is only ever copied into places and into the names of text literals, so the two readings go
side by side, step by step.
-/

namespace Stencil

open Stencil.Text

/-- Places do not matter here. -/
theorem Place.like_any (p p' : Place) : p.Like false p' := fun h => nomatch h

/-- Failures to read of one kind. -/
inductive ParseFailure.Like : ParseFailure → ParseFailure → Prop
  | error {e e'} : ParseFailure.Like (.error e) (.error e')
  | exhausted : ParseFailure.Like .exhausted .exhausted

/-- Readings that both give a result, and related ones, or both fail. -/
inductive LikeRead {α : Type} (A : α → α → Prop) :
    Except ParseFailure α → Except ParseFailure α → Prop
  | ok {a a'} (ha : A a a') : LikeRead A (.ok a) (.ok a')
  | error {e e'} (he : e.Like e') : LikeRead A (.error e) (.error e')

theorem LikeRead.map {α β : Type} {A : α → α → Prop} {B : β → β → Prop} {x x' : Except ParseFailure α}
    (h : LikeRead A x x') {f : α → β} (hf : ∀ a a', A a a' → B (f a) (f a')) :
    LikeRead B (x.map f) (x'.map f) := by
  cases h with
  | ok ha => exact .ok (hf _ _ ha)
  | error he => exact .error he

namespace Scanner

/-- A scanner in a text of another name. -/
def rename (r : Option String) (s : Scanner) : Scanner :=
  { s with resource := r }

variable (r : Option String) (s : Scanner)

theorem take_rename : (s.rename r).take = s.take.rename r := by
  obtain ⟨resource, current, slot, rest, line⟩ := s
  cases rest <;> rfl

theorem advance_rename : (s.rename r).advance = s.advance.rename r := by
  obtain ⟨resource, current, slot, rest, line⟩ := s
  rcases current with _ | c
  · rfl
  · rcases slot with _ | c
    · exact take_rename r ⟨resource, some c, none, rest, line⟩
    · rfl

theorem advanceBy_rename (n : Nat) : (s.rename r).advanceBy n = (s.advanceBy n).rename r := by
  induction n generalizing s with
  | zero => rfl
  | succ n ih => rw [advanceBy, advanceBy, advance_rename, ih]

/-- Whether no double quote is left to be read. -/
def Quoteless : Prop :=
  s.current ≠ some '"' ∧ s.slot ≠ some (some '"') ∧ '"' ∉ s.rest

variable {s}

theorem Quoteless.take (h : s.Quoteless) : s.take.Quoteless := by
  obtain ⟨resource, current, slot, rest, line⟩ := s
  obtain ⟨-, hslot, hrest⟩ := h
  cases rest with
  | nil => exact ⟨nofun, hslot, hrest⟩
  | cons c cs =>
    simp only [List.mem_cons, not_or] at hrest
    exact ⟨fun hc => hrest.1 (Option.some.inj hc).symm, hslot, hrest.2⟩

theorem Quoteless.advance (h : s.Quoteless) : s.advance.Quoteless := by
  rw [Scanner.advance]
  split
  · exact h
  · rename_i c hcurrent hslot
    exact ⟨fun hc => h.2.1 (hslot.trans (congrArg some hc)), nofun, h.2.2⟩
  · exact h.take

theorem Quoteless.advanceBy (h : s.Quoteless) (n : Nat) : (s.advanceBy n).Quoteless := by
  induction n generalizing s with
  | zero => exact h
  | succ n ih => exact ih h.advance

theorem Quoteless.putBack (h : s.Quoteless) {c : Char} (hc : c ≠ '"') : (s.putBack c).Quoteless :=
  ⟨fun he => hc (Option.some.inj he), fun he => h.1 (Option.some.inj he), h.2.2⟩

/-- Scanners at one position of a text, under two names. `free` says that no double quote is left. -/
structure Beside (free : Bool) (s s' : Scanner) : Prop where
  renamed : ∃ r, s' = s.rename r
  quoteless : free = true → s.Quoteless

end Scanner

/-- Whether two steps, from states that are related, end with related results in related states, or
fail in the same way. -/
def Parallel {σ α : Type} (R : σ → σ → Prop) (A : α → α → Prop) (x x' : EStateM ParseFailure σ α) :
    Prop :=
  ∀ s s', R s s' →
    match x s, x' s' with
    | .ok a t, .ok a' t' => A a a' ∧ R t t'
    | .error e _, .error e' _ => e.Like e'
    | _, _ => False

namespace Parallel

variable {σ α β : Type} {R : σ → σ → Prop} {A A' : α → α → Prop} {B : β → β → Prop}

theorem pure {a a' : α} (ha : A a a') : Parallel R A (Pure.pure a) (Pure.pure a') :=
  fun _ _ h => ⟨ha, h⟩

theorem throw {e e' : ParseFailure} (he : e.Like e') :
    Parallel R A (MonadExcept.throw e) (MonadExcept.throw e') :=
  fun _ _ _ => he

theorem bind {x x' : EStateM ParseFailure σ β} {f f' : β → EStateM ParseFailure σ α}
    (hx : Parallel R B x x') (hf : ∀ b b', B b b' → Parallel R A (f b) (f' b')) :
    Parallel R A (x >>= f) (x' >>= f') := by
  intro s s' h
  have hx := hx s s' h
  show match EStateM.bind x f s, EStateM.bind x' f' s' with
    | .ok a t, .ok a' t' => A a a' ∧ R t t'
    | .error e _, .error e' _ => e.Like e'
    | _, _ => False
  rw [EStateM.bind, EStateM.bind]
  generalize x s = r at hx
  generalize x' s' = r' at hx
  match r, r', hx with
  | .ok b t, .ok b' t', ⟨hb, h⟩ => exact hf b b' hb t t' h
  | .error _ _, .error _ _, he => exact he

theorem map {x x' : EStateM ParseFailure σ β} {f f' : β → α} (hx : Parallel R B x x')
    (hf : ∀ b b', B b b' → A (f b) (f' b')) : Parallel R A (f <$> x) (f' <$> x') :=
  bind hx fun b b' hb => pure (hf b b' hb)

end Parallel

/-- Readers of the insides of text literals that do alike, needed where there may be double quotes. -/
def LikeInner (readInner readInner' : ReadInner) : Prop :=
  ∀ name name' text, LikeRead (LikeNodes false) (readInner name text) (readInner' name' text)

/-- Whether the insides of text literals are read alike where there may be double quotes. -/
abbrev SameInner (free : Bool) (readInner readInner' : ReadInner) : Prop :=
  free = false → LikeInner readInner readInner'

namespace Scan

variable {free : Bool} {α β : Type} {A : α → α → Prop}

/-- Whether two steps of reading go side by side in a text that is read under two names. -/
abbrev Alike (free : Bool) (A : α → α → Prop) (x x' : Scan α) : Prop :=
  Parallel (Scanner.Beside free) A x x'

theorem alike_change {f : Scanner → Scanner} (hf : ∀ r s, f (s.rename r) = (f s).rename r)
    (hq : ∀ s : Scanner, s.Quoteless → (f s).Quoteless) : Alike free Eq (modify f) (modify f) := by
  rintro s s' ⟨⟨r, rfl⟩, h⟩
  exact ⟨rfl, ⟨r, hf r s⟩, fun hfree => hq s (h hfree)⟩

/-- The current character is the same, and no double quote where there is none. -/
theorem alike_peek :
    Alike free (fun c c' => c = c' ∧ (free = true → c ≠ some '"')) peek peek := by
  rintro s s' ⟨⟨r, rfl⟩, h⟩
  exact ⟨⟨rfl, fun hfree => (h hfree).1⟩, ⟨r, rfl⟩, h⟩

theorem alike_skip : Alike free Eq skip skip :=
  alike_change Scanner.advance_rename fun _ h => h.advance

theorem alike_here : Alike free (fun p p' => p.line = p'.line) here here := by
  rintro s s' ⟨⟨r, rfl⟩, h⟩
  exact ⟨rfl, ⟨r, rfl⟩, h⟩

theorem alike_fail {cause cause' : ParseCause} : Alike free A (fail cause) (fail cause') :=
  fun _ _ _ => .error

theorem alike_exhausted : Alike free A exhausted exhausted :=
  fun _ _ _ => .exhausted

theorem alike_skipBlanks : Alike free Eq skipBlanks skipBlanks :=
  alike_change (fun r s => s.advanceBy_rename r _) fun _ h => h.advanceBy _

theorem alike_nextNonBlank : Alike free Eq nextNonBlank nextNonBlank := by
  refine alike_change (fun r s => ?_) fun _ h => h.advance.advanceBy _
  show (s.rename r).advance.skipBlanks = _
  rw [Scanner.advance_rename]
  exact Scanner.advanceBy_rename r s.advance _

theorem alike_skipNewline : Alike free Eq skipNewline skipNewline := by
  refine alike_change (fun r s => ?_) fun s h => ?_
  · rw [Scanner.skipNewline, Scanner.skipNewline, Scanner.advance_rename]
    show (if s.current = some '\n' then _ else _) = _
    split <;> rfl
  · rw [Scanner.skipNewline]
    split
    · exact h.advance
    · exact h

theorem alike_takeWhile (p : Char → Bool) : Alike free Eq (takeWhile p) (takeWhile p) := by
  rintro s s' ⟨⟨r, rfl⟩, h⟩
  exact ⟨rfl, ⟨r, s.advanceBy_rename r _⟩, fun hfree => (h hfree).advanceBy _⟩

theorem alike_putBack {c : Char} (hc : c ≠ '"') : Alike free Eq (putBack c) (putBack c) :=
  alike_change (fun _ _ => rfl) fun _ h => h.putBack hc

/-- What is decided by the current character is decided alike. -/
theorem alike_match {f f' : Option Char → Scan α}
    (hf : ∀ c, (free = true → c ≠ some '"') → Alike free A (f c) (f' c)) :
    Alike free A (peek >>= f) (peek >>= f') := by
  refine .bind alike_peek fun c c' hc => ?_
  rw [← hc.1]
  exact hf c hc.2

theorem alike_then {x : Scan β} {f f' : β → Scan α} (hx : Alike free Eq x x)
    (hf : ∀ b, Alike free A (f b) (f' b)) : Alike free A (x >>= f) (x >>= f') := by
  refine .bind hx fun b b' hb => ?_
  rw [← hb]
  exact hf b

theorem alike_ite {c : Prop} [Decidable c] {x x' y y' : Scan α} (hx : Alike free A x x')
    (hy : Alike free A y y') : Alike free A (if c then x else y) (if c then x' else y') := by
  split
  · exact hx
  · exact hy

/-- A check that fails, before what goes on. -/
theorem alike_unless {c : Prop} [Decidable c] {cause : ParseCause} {x x' : Scan α}
    (hx : Alike free A x x') : Alike free A (if c then do fail cause; x else x)
      (if c then do fail cause; x' else x') :=
  alike_ite (.bind (alike_fail (A := fun _ _ => True)) fun _ _ _ => hx) hx

/-- A character that may be there, before what goes on. -/
theorem alike_optional {c : Prop} [Decidable c] {x x' : Scan α} (hx : Alike free A x x') :
    Alike free A (if c then do skip; x else x) (if c then do skip; x' else x') :=
  alike_ite (alike_then alike_skip fun _ => hx) hx

theorem alike_expect (c : Char) : Alike free Eq (expect c) (expect c) :=
  alike_then alike_skipBlanks fun _ => alike_match fun _ _ => alike_ite alike_skip alike_fail

theorem alike_sees (p : Char → Bool) : Alike free Eq (sees p) (sees p) :=
  alike_match fun _ _ => .pure rfl

theorem alike_name (what : String) : Alike free Eq (name what) (name what) :=
  alike_then (alike_sees _) fun _ => alike_ite (alike_then (alike_takeWhile _) fun _ => .pure rfl) alike_fail

/-! ### Expressions -/

theorem alike_integer (negative : Bool) : Alike free (LikeExpr false) (integer negative) (integer negative) :=
  alike_then (alike_takeWhile _) fun _ => alike_ite alike_fail
    (.bind alike_here fun p p' _ => .pure (.literal (p.like_any p')))

theorem alike_quoted (quote : Quote) : Alike free Eq (quoted quote) (quoted quote) := by
  refine alike_then (alike_takeWhile _) fun text => alike_match fun c _ => ?_
  cases c with
  | none => exact alike_fail
  | some c => exact alike_ite alike_fail (alike_then alike_skip fun _ => .pure rfl)

theorem alike_inner {x x' : Except ParseFailure α} (h : LikeRead A x x') :
    Alike free A (inner x) (inner x') := by
  cases h with
  | ok ha => exact .pure ha
  | error he => exact .throw he

variable {readInner readInner' : ReadInner}

theorem alike_text (quote : Quote) (hq : quote = .double → LikeInner readInner readInner') :
    Alike free (LikeExpr false) (text readInner quote) (text readInner' quote) := by
  refine alike_then alike_skip fun _ => alike_then (alike_quoted quote) fun s =>
    .bind alike_here fun p p' _ => ?_
  cases quote with
  | single => exact .pure (.text (p.like_any p') (.cons (.text (p.like_any p')) .nil))
  | double =>
    exact .map (alike_inner (hq rfl _ _ _)) fun _ _ hns => .text (p.like_any p') hns

theorem alike_operator : Alike free Eq operator operator := by
  have hsecond : ∀ a b op, Alike free Eq (secondChar a b op) (secondChar a b op) := fun a b op =>
    alike_match fun _ _ => alike_ite (alike_then alike_skip fun _ => .pure rfl) alike_fail
  have horEqual : ∀ a b, Alike free Eq (orEqual a b) (orEqual a b) := fun a b =>
    alike_match fun _ _ => alike_ite (alike_then alike_skip fun _ => .pure rfl) (.pure rfl)
  have hword : ∀ w op, Alike free Eq (wordOperator w op) (wordOperator w op) := fun w op =>
    alike_then (alike_name _) fun _ => alike_ite (.pure rfl) alike_fail
  refine alike_then alike_skipBlanks fun _ => alike_match fun c _ => ?_
  split
  · exact hword _ _
  · exact hword _ _
  · exact alike_then alike_skip fun _ => hsecond _ _ _
  · exact alike_then alike_skip fun _ => hsecond _ _ _
  · exact alike_then alike_skip fun _ => hsecond _ _ _
  · exact alike_then alike_skip fun _ => hsecond _ _ _
  · exact alike_then alike_skip fun _ => horEqual _ _
  · exact alike_then alike_skip fun _ => horEqual _ _
  all_goals first
    | exact .pure rfl
    | exact alike_then alike_skip fun _ => .pure rfl

/-- An operand and the operator after it. -/
abbrev LikeOperand (p p' : Expr × Option Operator) : Prop :=
  LikeExpr false p.1 p'.1 ∧ p.2 = p'.2

mutual

theorem alike_expr (h : SameInner free readInner readInner') : (n : Nat) →
    Alike free (LikeExpr false) (expr readInner n) (expr readInner' n)
  | 0 => alike_exhausted
  | n + 1 => .bind (alike_unary h n) fun _ _ ha => alike_then alike_operator fun next =>
    .bind (alike_climb h n ha next 1) fun _ _ h => .pure h.1

theorem alike_climb (h : SameInner free readInner readInner') : (n : Nat) → {a a' : Expr} → LikeExpr false a a' →
    (next : Option Operator) → (least : Nat) →
    Alike free LikeOperand (climb readInner n a next least) (climb readInner' n a' next least)
  | 0, _, _, _, _, _ => alike_exhausted
  | n + 1, _, _, ha, none, least => .pure ⟨ha, rfl⟩
  | n + 1, _, _, ha, some op, least => by
    refine alike_ite (.pure ⟨ha, rfl⟩) ?_
    refine .bind (alike_unary h n) fun _ _ hb => alike_then alike_operator fun next =>
      .bind (alike_climbRight h n hb next op.precedence) fun p p' h => ?_
    obtain ⟨b, next⟩ := p
    obtain ⟨b', next'⟩ := p'
    obtain ⟨hb, rfl⟩ := h
    exact alike_climb h n (.binary ha hb) next least

theorem alike_climbRight (h : SameInner free readInner readInner') : (n : Nat) → {a a' : Expr} → LikeExpr false a a' →
    (next : Option Operator) → (bound : Nat) →
    Alike free LikeOperand (climbRight readInner n a next bound) (climbRight readInner' n a' next bound)
  | 0, _, _, _, _, _ => alike_exhausted
  | n + 1, _, _, ha, none, bound => .pure ⟨ha, rfl⟩
  | n + 1, _, _, ha, some op, bound => by
    refine alike_ite (.pure ⟨ha, rfl⟩) ?_
    refine .bind (alike_climb h n ha (some op) op.precedence) fun p p' h => ?_
    obtain ⟨b, next⟩ := p
    obtain ⟨b', next'⟩ := p'
    obtain ⟨hb, rfl⟩ := h
    exact alike_climbRight h n hb next bound

theorem alike_unary (h : SameInner free readInner readInner') : (n : Nat) →
    Alike free (LikeExpr false) (unary readInner n) (unary readInner' n)
  | 0 => alike_exhausted
  | n + 1 => by
    refine alike_then alike_skipBlanks fun _ => alike_match fun c _ => ?_
    split
    · exact alike_then alike_nextNonBlank fun _ => .bind (alike_expr h n) fun _ _ he =>
        alike_then (alike_expect _) fun _ => alike_then alike_skipBlanks fun _ => .pure he
    · exact alike_then alike_skip fun _ => .bind alike_here fun p p' _ =>
        .bind (alike_unary h n) fun _ _ he => alike_then alike_skipBlanks fun _ =>
          .pure (.negation (p.like_any p') he)
    · exact alike_primary h n false

theorem alike_primary (h : SameInner free readInner readInner') : (n : Nat) → (nullAllowed : Bool) →
    Alike free (LikeExpr false) (primary readInner n nullAllowed) (primary readInner' n nullAllowed)
  | 0, _ => alike_exhausted
  | n + 1, nullAllowed => by
    refine alike_then alike_skipBlanks fun _ => alike_match fun c hc => ?_
    have hend : ∀ {x x' : Scan Expr}, Alike free (LikeExpr false) x x' →
        Alike free (LikeExpr false) (do let e ← x; skipBlanks; return e)
          (do let e ← x'; skipBlanks; return e) := fun hx =>
      .bind hx fun _ _ he => alike_then alike_skipBlanks fun _ => .pure he
    dsimp only
    split
    · exact alike_then alike_skip fun _ => hend (alike_required h n)
    · refine hend (alike_text .double fun _ => h ?_)
      cases free with
      | true => exact absurd rfl (hc rfl)
      | false => rfl
    · exact hend (alike_text .single nofun)
    · exact alike_then alike_skip fun _ => hend (alike_integer true)
    · exact hend (alike_listOrRange h n)
    · exact alike_ite (hend (alike_integer false)) (alike_ite (hend (alike_word h n nullAllowed))
        (hend alike_fail))
    · exact hend alike_fail

theorem alike_word (h : SameInner free readInner readInner') : (n : Nat) → (nullAllowed : Bool) →
    Alike free (LikeExpr false) (word readInner n nullAllowed) (word readInner' n nullAllowed)
  | 0, _ => alike_exhausted
  | n + 1, nullAllowed => by
    have hliteral : ∀ v, Alike free (LikeExpr false) (do return .literal (← here) v)
        (do return .literal (← here) v) := fun v =>
      .bind alike_here fun p p' _ => .pure (.literal (p.like_any p'))
    refine alike_then (alike_name _) fun w => alike_ite (hliteral _) (alike_ite (hliteral _)
      (alike_ite ?_ (alike_ite (hliteral _) alike_fail)))
    exact .bind alike_here fun p p' _ => .map (alike_unary h n) fun _ _ he =>
      .negation (p.like_any p') he

theorem alike_listOrRange (h : SameInner free readInner readInner') : (n : Nat) →
    Alike free (LikeExpr false) (listOrRange readInner n) (listOrRange readInner' n)
  | 0 => alike_exhausted
  | n + 1 => by
    refine alike_then alike_nextNonBlank fun _ => alike_match fun c _ => alike_ite ?_ ?_
    · exact alike_then alike_skip fun _ => .bind alike_here fun p p' _ =>
        .pure (.list (p.like_any p') .nil)
    · refine .bind (alike_primary h n false) fun _ _ ha => alike_match fun c _ => alike_ite ?_ ?_
      · exact alike_then alike_skip fun _ => alike_match fun c _ => alike_unless <|
          alike_then alike_nextNonBlank fun _ => .bind (alike_primary h n false) fun _ _ hb =>
            alike_match fun c _ => alike_unless <| alike_then alike_nextNonBlank fun _ =>
              .bind alike_here fun p p' _ => .pure (.range (p.like_any p') ha hb)
      · exact .bind (alike_elements h n) fun _ _ hes => alike_match fun c _ => alike_unless <|
          alike_then alike_skip fun _ => .bind alike_here fun p p' _ =>
            .pure (.list (p.like_any p') (.cons ha hes))

theorem alike_elements (h : SameInner free readInner readInner') : (n : Nat) →
    Alike free (LikeExprs false) (elements readInner n) (elements readInner' n)
  | 0 => alike_exhausted
  | n + 1 => alike_match fun _ _ => alike_ite
    (alike_then alike_skip fun _ => .bind (alike_primary h n false) fun _ _ he =>
      .map (alike_elements h n) fun _ _ hes => .cons he hes)
    (.pure .nil)

theorem alike_required (h : SameInner free readInner readInner') : (n : Nat) →
    Alike free (LikeExpr false) (required readInner n) (required readInner' n)
  | 0 => alike_exhausted
  | n + 1 => alike_match fun _ _ => alike_optional <| alike_match fun _ _ => alike_ite
    (alike_then alike_skip fun _ => .bind (alike_reference h n false) fun _ _ he =>
      alike_then (alike_expect _) fun _ => .pure he)
    (alike_reference h n false)

theorem alike_reference (h : SameInner free readInner readInner') : (n : Nat) → (quiet : Bool) →
    Alike free (LikeExpr false) (reference readInner n quiet) (reference readInner' n quiet)
  | 0, _ => alike_exhausted
  | n + 1, _ => alike_then (alike_name _) fun _ => .bind alike_here fun p p' _ =>
    .map (alike_suffixes h n) fun _ _ hss => .reference (p.like_any p') hss

theorem alike_suffixes (h : SameInner free readInner readInner') : (n : Nat) →
    Alike free (LikeSuffixes false) (suffixes readInner n) (suffixes readInner' n)
  | 0 => alike_exhausted
  | n + 1 => by
    refine alike_match fun c _ => ?_
    split
    · refine alike_then alike_skip fun _ => alike_then (alike_sees _) fun _ => alike_ite ?_ ?_
      · have hrest : ∀ {x x' : Scan Suffix}, Alike free (LikeSuffix false) x x' →
            Alike free (LikeSuffixes false) (do let s ← x; return s :: (← suffixes readInner n))
              (do let s ← x'; return s :: (← suffixes readInner' n)) := fun hx =>
          .bind hx fun _ _ hs => .map (alike_suffixes h n) fun _ _ hss => .cons hs hss
        exact alike_then (alike_name _) fun m => alike_match fun c _ => alike_ite
          (hrest (.map (alike_arguments h n) fun _ _ hes => .method hes)) (hrest (.pure .member))
      · exact alike_then (alike_putBack (by decide)) fun _ => .pure .nil
    · exact alike_then alike_skip fun _ => .bind (alike_primary h n false) fun _ _ he =>
        alike_match fun c _ => alike_unless <| alike_then alike_skip fun _ =>
          .map (alike_suffixes h n) fun _ _ hss => .cons (.index he) hss
    · exact .pure .nil

theorem alike_arguments (h : SameInner free readInner readInner') : (n : Nat) →
    Alike free (LikeExprs false) (arguments readInner n) (arguments readInner' n)
  | 0 => alike_exhausted
  | n + 1 => by
    refine alike_then alike_nextNonBlank fun _ => alike_match fun c _ => alike_ite ?_ ?_
    · exact alike_then alike_skip fun _ => .pure .nil
    · exact .bind (alike_primary h n true) fun _ _ he => .bind (alike_moreArguments h n) fun _ _ hes =>
        alike_match fun c _ => alike_unless <| alike_then alike_skip fun _ => .pure (.cons he hes)

theorem alike_moreArguments (h : SameInner free readInner readInner') : (n : Nat) →
    Alike free (LikeExprs false) (moreArguments readInner n) (moreArguments readInner' n)
  | 0 => alike_exhausted
  | n + 1 => alike_match fun _ _ => alike_ite
    (alike_then alike_nextNonBlank fun _ => .bind (alike_primary h n true) fun _ _ he =>
      .map (alike_moreArguments h n) fun _ _ hes => .cons he hes)
    (.pure .nil)

end

end Scan

end Stencil
