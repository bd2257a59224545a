import Mathlib.Data.List.TakeWhile
import Stencil.Proofs.Reading

/-!
# The course of a step of reading

The readers of expressions call each other, each with less fuel than it was given. `Scan.Call` names these
readers, and `Call.work` measures what a call has to do: the characters that are still to be read, and
among calls at one place a rank that falls from caller to callee. `Scan.Course` goes through a step of
reading operation by operation: it takes characters that are there, puts nothing back but the period that
it took to look past it, and calls readers only where there is less work than a bound.
-/

namespace Stencil

open Stencil.Text

namespace Scanner

/-- How many characters are still to be read. -/
def left (s : Scanner) : Nat :=
  s.pending.length

variable {s : Scanner} {c : Char}

theorem left_pos (h : s.current = some c) : 0 < s.left := by
  rw [current_eq] at h
  exact List.length_pos_of_mem (List.mem_of_mem_head? h)

theorem left_eq_zero : s.left = 0 ↔ s.current = none := by
  rw [left, List.length_eq_zero_iff, current_eq, List.head?_eq_none_iff]

theorem left_advanceBy (n : Nat) (s : Scanner) : (s.advanceBy n).left = s.left - n := by
  rw [left, pending_advanceBy, List.length_drop, left]

theorem left_advanceBy_le (n : Nat) (s : Scanner) : (s.advanceBy n).left ≤ s.left := by
  rw [left_advanceBy]
  omega

theorem left_advance (s : Scanner) : s.advance.left = s.left - 1 :=
  left_advanceBy 1 s

theorem advanceBy_add (m n : Nat) (s : Scanner) : s.advanceBy (m + n) = (s.advanceBy m).advanceBy n := by
  induction m generalizing s with
  | zero => rw [Nat.zero_add, advanceBy]
  | succ m ih => rw [Nat.succ_add, advanceBy, ih, advanceBy]

/-- At the end of the text there is nothing to take. -/
theorem advance_of_left (h : s.left = 0) : s.advance = s := by
  rw [advance, left_eq_zero.1 h]

/-- Going to the next character takes at most what is left. -/
theorem advance_eq (s : Scanner) : s.advance = s.advanceBy (min 1 s.left) := by
  rcases Nat.eq_zero_or_pos s.left with h | h
  · rw [h, advance_of_left h]
    rfl
  · rw [Nat.min_eq_left h]
    rfl

theorem takeWhile_pos {p q : Char → Bool} (hpq : ∀ c, p c = true → q c = true)
    (h : s.current.any p = true) : 0 < (s.pending.takeWhile q).length := by
  rw [current_eq] at h
  cases hs : s.pending with
  | nil => simp [hs] at h
  | cons c cs =>
    rw [hs] at h
    simp [hpq c h]

theorem takeWhile_left (p : Char → Bool) (s : Scanner) : (s.pending.takeWhile p).length ≤ s.left :=
  (List.takeWhile_sublist p).length_le

end Scanner

namespace Scan

variable {α β : Type} {readInner : ReadInner} {n w : Nat} {s : Scanner}

/-- Calls of the readers that call each other: those of expressions, and those of the rows of arguments and
parameters. -/
inductive Call : Type → Type
  | expr : Call Expr
  | climb (lhs : Expr) (next : Option Operator) (least : Nat) : Call (Expr × Option Operator)
  | climbRight (rhs : Expr) (next : Option Operator) (bound : Nat) : Call (Expr × Option Operator)
  | unary : Call Expr
  | primary (nullAllowed : Bool) : Call Expr
  | word (nullAllowed : Bool) : Call Expr
  | listOrRange : Call Expr
  | elements : Call (List Expr)
  | required : Call Expr
  | reference (quiet : Bool) : Call Expr
  | suffixes : Call (List Suffix)
  | arguments : Call (List Expr)
  | moreArguments : Call (List Expr)
  | callArguments : Call (List Expr)
  | parameters : Call (List String)

namespace Call

/-- The reader that is called, with its fuel. -/
def run (readInner : ReadInner) (n : Nat) : Call α → Scan α
  | .expr => Scan.expr readInner n
  | .climb lhs next least => Scan.climb readInner n lhs next least
  | .climbRight rhs next bound => Scan.climbRight readInner n rhs next bound
  | .unary => Scan.unary readInner n
  | .primary nullAllowed => Scan.primary readInner n nullAllowed
  | .word nullAllowed => Scan.word readInner n nullAllowed
  | .listOrRange => Scan.listOrRange readInner n
  | .elements => Scan.elements readInner n
  | .required => Scan.required readInner n
  | .reference quiet => Scan.reference readInner n quiet
  | .suffixes => Scan.suffixes readInner n
  | .arguments => Scan.arguments readInner n
  | .moreArguments => Scan.moreArguments readInner n
  | .callArguments => Scan.callArguments readInner n
  | .parameters => Scan.parameters n

/-- The order of calls that are made at one place of the text. -/
def rank : Call α → Nat
  | .climbRight _ _ _ => 4
  | .expr | .climb _ _ _ => 3
  | .unary | .callArguments => 2
  | .primary _ | .required => 1
  | .word _ | .listOrRange | .elements | .reference _ | .suffixes | .arguments | .moreArguments
  | .parameters => 0

/-- What a call has to do. A character that was taken outweighs every rank. -/
def work (c : Call α) (s : Scanner) : Nat :=
  8 * s.left + c.rank

/-- Where a call is made: lists and arguments are read from their bracket on. -/
def Ready : Call α → Scanner → Prop
  | .listOrRange, s | .arguments, s => 0 < s.left
  | .expr, _ | .climb _ _ _, _ | .climbRight _ _ _, _ | .unary, _ | .primary _, _ | .word _, _
  | .elements, _ | .required, _ | .reference _, _ | .suffixes, _ | .moreArguments, _
  | .callArguments, _ | .parameters, _ => True

/-- How many characters a call takes at least, if it gives a result. -/
def taken : Call α → Nat
  | .climb _ next least => if next.any (least ≤ ·.precedence) then 1 else 0
  | .expr | .unary | .primary _ | .word _ | .listOrRange | .required | .reference _ => 1
  | .climbRight _ _ _ | .elements | .suffixes | .arguments | .moreArguments | .callArguments
  | .parameters => 0

end Call

/-- The course of a step from a scanner: each operation is one that reading may do there, each call has less
work than `w`, and a result satisfies `Φ` with the scanner it leaves. -/
inductive Course (readInner : ReadInner) (n w : Nat) :
    {α : Type} → Scan α → Scanner → (α → Scanner → Prop) → Prop
  | pure {α : Type} {a : α} {s : Scanner} {Φ : α → Scanner → Prop} (h : Φ a s) :
      Course readInner n w (Pure.pure a) s Φ
  | bind {α β : Type} {x : Scan β} {f : β → Scan α} {s : Scanner} {Ψ : β → Scanner → Prop}
      {Φ : α → Scanner → Prop} (hx : Course readInner n w x s Ψ)
      (hf : ∀ b t, Ψ b t → Course readInner n w (f b) t Φ) : Course readInner n w (x >>= f) s Φ
  /-- Looks at the scanner. -/
  | get {s : Scanner} {Φ : Scanner → Scanner → Prop} (h : Φ s s) : Course readInner n w get s Φ
  /-- Takes characters that are there. -/
  | take {α : Type} {f : Scanner → α × Scanner} {s : Scanner} {Φ : α → Scanner → Prop} (k : Nat)
      (hk : k ≤ s.left) (hf : (f s).2 = s.advanceBy k) (h : Φ (f s).1 (f s).2) :
      Course readInner n w (modifyGet f) s Φ
  /-- Takes a period, and puts it back unless what follows is of a class. -/
  | lookPast {α : Type} {p : Char → Bool} {x y : Scan α} {s : Scanner} {Φ : α → Scanner → Prop}
      (hs : s.current = some '.')
      (hx : s.advance.current.any p = true → Course readInner n w x s.advance Φ)
      (hy : s.advance.current.any p = false → Course readInner n w y (s.advance.putBack '.') Φ) :
      Course readInner n w (do
        skip
        if ← sees p then x
        else
          putBack '.'
          y) s Φ
  /-- Refuses the text here. -/
  | fail {α : Type} {cause : ParseCause} {s : Scanner} {Φ : α → Scanner → Prop} :
      Course readInner n w (fail cause) s Φ
  /-- Refuses the text with an error that quotes nothing. -/
  | refuse {α : Type} {e : ParseError} {s : Scanner} {Φ : α → Scanner → Prop} :
      Course readInner n w (throw (.error e)) s Φ
  /-- Reads the inside of a text literal, which holds no quote and fits with its quotes in what `w` counts. -/
  | inner {name text : String} {s : Scanner} {Φ : List Node → Scanner → Prop}
      (hquote : '"' ∉ text.toList) (hw : 8 * (text.toList.length + 2) < w) (h : ∀ ns, Φ ns s) :
      Course readInner n w (inner (readInner name text)) s Φ
  | call {α : Type} {s : Scanner} {Φ : α → Scanner → Prop} (c : Call α) (hr : c.Ready s)
      (hw : c.work s < w) (h : ∀ a t, t.left + c.taken ≤ s.left → Φ a t) :
      Course readInner n w (c.run readInner n) s Φ

namespace Course

variable {Φ : α → Scanner → Prop}

/-- Steps in a row, judged by what the first leaves to the second. -/
theorem seq {x : Scan β} {f : β → Scan α}
    (h : Course readInner n w x s fun b t => Course readInner n w (f b) t Φ) :
    Course readInner n w (x >>= f) s Φ :=
  .bind h fun _ _ h => h

theorem map {x : Scan β} {f : β → α} (h : Course readInner n w x s fun b t => Φ (f b) t) :
    Course readInner n w (f <$> x) s Φ :=
  .bind (f := fun b => Pure.pure (f b)) h fun _ _ h => .pure h

theorem ite {c : Prop} [Decidable c] {x y : Scan α} (hx : c → Course readInner n w x s Φ)
    (hy : ¬c → Course readInner n w y s Φ) : Course readInner n w (if c then x else y) s Φ := by
  split
  · exact hx ‹_›
  · exact hy ‹_›

theorem peek {Φ : Option Char → Scanner → Prop} (h : Φ s.current s) :
    Course readInner n w peek s Φ :=
  .seq (.get (.pure h))

theorem here {Φ : Place → Scanner → Prop} (h : Φ s.place s) : Course readInner n w here s Φ :=
  .seq (.get (.pure h))

theorem sees {p : Char → Bool} {Φ : Bool → Scanner → Prop} (h : Φ (s.current.any p) s) :
    Course readInner n w (sees p) s Φ :=
  .seq (.peek (.pure h))

theorem skip {Φ : Unit → Scanner → Prop} (h : Φ () s.advance) : Course readInner n w skip s Φ :=
  .take (min 1 s.left) (Nat.min_le_right _ _) s.advance_eq h

theorem skipBlanks {Φ : Unit → Scanner → Prop} (h : ∀ t : Scanner, t.left ≤ s.left → Φ () t) :
    Course readInner n w skipBlanks s Φ :=
  .take _ (s.takeWhile_left _) rfl (h _ (Scanner.left_advanceBy_le _ _))

theorem nextNonBlank {Φ : Unit → Scanner → Prop} (h : ∀ t : Scanner, t.left ≤ s.left - 1 → Φ () t) :
    Course readInner n w nextNonBlank s Φ := by
  have hk : min 1 s.left + (s.advance.pending.takeWhile isBlank).length ≤ s.left := by
    have := s.advance.takeWhile_left isBlank
    rw [Scanner.left_advance] at this
    omega
  refine .take _ hk ?_ (h _ ?_)
  · rw [Scanner.advanceBy_add, ← Scanner.advance_eq]
    rfl
  · rw [← Scanner.left_advance]
    exact Scanner.left_advanceBy_le _ _

theorem skipNewline {Φ : Unit → Scanner → Prop} (h : ∀ t : Scanner, t.left ≤ s.left → Φ () t) :
    Course readInner n w skipNewline s Φ := by
  refine .take (if s.current = some '\n' then min 1 s.left else 0) ?_ ?_ (h _ ?_)
  · split <;> omega
  · show s.skipNewline = _
    rw [Scanner.skipNewline]
    split
    · exact s.advance_eq
    · rfl
  · show s.skipNewline.left ≤ _
    rw [Scanner.skipNewline]
    split
    · rw [Scanner.left_advance]
      omega
    · exact Nat.le_refl _

/-- A run of characters of a class is taken as a whole. -/
theorem takeWhile {p : Char → Bool} {Φ : List Char → Scanner → Prop}
    (h : ∀ t : Scanner, t.left + (s.pending.takeWhile p).length = s.left → Φ (s.pending.takeWhile p) t) :
    Course readInner n w (takeWhile p) s Φ := by
  refine .take _ (s.takeWhile_left p) rfl (h _ ?_)
  have := s.takeWhile_left p
  rw [Scanner.takeWhile, Scanner.left_advanceBy]
  omega

/-- A character that is expected is taken. -/
theorem expect {c : Char} {Φ : Unit → Scanner → Prop} (h : ∀ t : Scanner, t.left < s.left → Φ () t) :
    Course readInner n w (expect c) s Φ := by
  refine .seq (.skipBlanks fun t ht => .seq (.peek (.ite (fun hc => .skip (h _ ?_)) fun _ => .fail)))
  have hpos := Scanner.left_pos hc
  rw [Scanner.left_advance]
  omega

/-- A name takes its letter at least. -/
theorem name {what : String} {Φ : String → Scanner → Prop}
    (h : ∀ x, ∀ t : Scanner, t.left < s.left → Φ x t) : Course readInner n w (name what) s Φ := by
  refine .seq (.sees (.ite (fun hc => .seq (.takeWhile fun t ht => .pure (h _ t ?_))) fun _ => .fail))
  have hrun : 0 < (s.pending.takeWhile isNameChar).length :=
    Scanner.takeWhile_pos (fun _ => isNameChar_of_isLetter) hc
  omega

/-- An integer takes its digits. -/
theorem integer {negative : Bool} {Φ : Expr → Scanner → Prop}
    (h : ∀ e, ∀ t : Scanner, t.left < s.left → Φ e t) : Course readInner n w (integer negative) s Φ := by
  refine .seq (.takeWhile fun t ht => .ite (fun _ => .fail) fun hdigits => .seq (.here (.pure ?_)))
  simp only [Bool.or_eq_true, not_or, List.isEmpty_iff, ← List.length_eq_zero_iff] at hdigits
  exact h _ t (by omega)

/-- The characters up to a quote hold no quote, and the quote is taken with them. -/
theorem quoted {quote : Quote} {Φ : String → Scanner → Prop}
    (h : ∀ x, quote.char ∉ x.toList → ∀ t : Scanner, t.left + x.toList.length < s.left → Φ x t) :
    Course readInner n w (quoted quote) s Φ := by
  refine .seq (.takeWhile fun t ht => .seq (.peek ?_))
  cases hc : t.current with
  | none => exact .fail
  | some c =>
    have hpos := Scanner.left_pos hc
    refine .ite (fun _ => .fail) fun _ => .seq (.skip (.pure (h _ ?_ _ ?_)))
    · intro hmem
      rw [String.toList_ofList] at hmem
      simpa using List.mem_takeWhile_imp hmem
    · rw [String.toList_ofList, Scanner.left_advance]
      omega

theorem text {quote : Quote} {Φ : Expr → Scanner → Prop} (hs : 0 < s.left) (hw : 8 * s.left < w)
    (h : ∀ e, ∀ t : Scanner, t.left < s.left → Φ e t) :
    Course readInner n w (text readInner quote) s Φ := by
  have hskip := s.left_advance
  refine .seq (.skip (.seq (.quoted fun x hx t ht => .seq (.here ?_))))
  cases quote with
  | single => exact .pure (h _ t (by omega))
  | double => exact .seq (.inner hx (by omega) fun ns => .pure (h _ t (by omega)))

/-- Whether an operator was found shows in what was taken. -/
theorem operator {Φ : Option Operator → Scanner → Prop}
    (h : ∀ o, ∀ t : Scanner, t.left + (if o.isSome then 1 else 0) ≤ s.left → Φ o t) :
    Course readInner n w operator s Φ := by
  refine .seq (.skipBlanks fun t ht => .seq (.peek ?_))
  have hskip := t.left_advance
  have hone {op : Operator} (ht' : 0 < t.left) :
      Course readInner n w (do Scan.skip; return some op) t Φ :=
    .seq (.skip (.pure (h _ _ (by simp; omega))))
  have hsecond {a b op} (ht' : 0 < t.left) :
      Course readInner n w (do Scan.skip; secondChar a b op) t Φ := by
    refine .seq (.skip (.seq (.peek (.ite (fun _ => .seq (.skip (.pure (h _ _ ?_)))) fun _ => .fail))))
    rw [Scanner.left_advance]
    simp
    omega
  have hequal {a b} (ht' : 0 < t.left) : Course readInner n w (do Scan.skip; orEqual a b) t Φ := by
    refine .seq (.skip (.seq (.peek (.ite (fun _ => .seq (.skip (.pure (h _ _ ?_))))
      fun _ => .pure (h _ _ (by simp; omega))))))
    rw [Scanner.left_advance]
    simp
    omega
  have hword {x op} : Course readInner n w (wordOperator x op) t Φ :=
    .seq (.name fun _ u _ => .ite (fun _ => .pure (h _ u (by simp; omega))) fun _ => .fail)
  split
  · exact hword
  · exact hword
  all_goals first
    | exact .pure (h _ t (by simpa using ht))
    | have hpos := Scanner.left_pos ‹t.current = some _›
      first
      | exact hone hpos
      | exact hsecond hpos
      | exact hequal hpos

end Course

end Scan

end Stencil
