import Stencil.Proofs.Row
import Stencil.Proofs.Reading

/-!
# The text of a row

The text of an expression is that of its row: the first operand, and each operator between spaces with the
operand after it. Reading an operator there finds it and what follows.
-/

namespace Stencil

open Stencil.Text

theorem isDigit_iff {c : Char} : isDigit c = true ↔ '0'.toNat ≤ c.toNat ∧ c.toNat ≤ '9'.toNat := by
  simp only [isDigit, Bool.and_eq_true, decide_eq_true_eq]
  exact Iff.rfl

theorem isDigit_of_isLetter {c : Char} (h : isLetter c = true) : isDigit c = false := by
  rw [Bool.eq_false_iff]
  intro hd
  have hle : c.toNat ≤ 57 := (isDigit_iff.1 hd).2
  simp only [isLetter, Bool.or_eq_true, Bool.and_eq_true, decide_eq_true_eq] at h
  obtain ⟨h, -⟩ | ⟨h, -⟩ := h
  · have : 97 ≤ c.toNat := h
    omega
  · have : 65 ≤ c.toNat := h
    omega

theorem isBlank_of_isDigit {c : Char} (h : isDigit c = true) : isBlank c = false := by
  obtain ⟨h₁, h₂⟩ := isDigit_iff.1 h
  have : isSpace c = false := by
    simp only [isSpace, Bool.or_eq_false_iff, Bool.and_eq_false_iff, decide_eq_false_iff_not,
      beq_eq_false_iff_ne, show '0'.toNat = 48 from rfl, show '9'.toNat = 57 from rfl] at *
    omega
  rw [isBlank, this, Bool.false_and]

/-- The digits of a number are read to their end. -/
theorem isDigit_of_mem_toDigits {n : Nat} {c : Char} (hc : c ∈ Nat.toDigits 10 n) : isDigit c = true :=
  Nat.isDigit_of_mem_toDigits (by decide) (by decide) hc

/-- Reading digits one by one makes the number that they write. -/
theorem foldl_digits {ds : List Char} (h : ∀ c ∈ ds, isDigit c = true) (n : Nat) :
    ds.foldl (fun n c => n * 10 + ((c.toNat : Int) - ('0'.toNat : Int))) (n : Int) =
      (Nat.ofDigitChars 10 ds n : Nat) := by
  induction ds generalizing n with
  | nil => rfl
  | cons c ds ih =>
    have hc := (isDigit_iff.1 (h c List.mem_cons_self)).1
    rw [List.foldl_cons, Nat.ofDigitChars_cons, ← ih (fun d hd => h d (List.mem_cons_of_mem _ hd))]
    congr 1
    omega
/-- Reading the digits of a number one by one makes the number. -/
theorem foldl_toDigits (n : Nat) :
    (Nat.toDigits 10 n).foldl (fun n c => n * 10 + ((c.toNat : Int) - ('0'.toNat : Int))) 0 = n := by
  have h := foldl_digits (fun c hc => isDigit_of_mem_toDigits (n := n) hc) 0
  rwa [Nat.ofDigitChars_toDigits (by decide) (by decide)] at h

/-- The characters of an operand: a binary expression stands in parentheses. -/
def Expr.operandText (u : Expr) : List Char :=
  (inParens u.isBinary u.source).toList

/-- The characters of a row. -/
def Row.text : Row → List Char
  | [] => []
  | (op, u) :: row => ' ' :: op.symbol.toList ++ ' ' :: u.operandText ++ Row.text row

/-- The operands of a row. -/
def Row.operands (row : Row) : List Expr :=
  row.map Prod.snd

namespace Row

theorem text_append (row row' : Row) : text (row ++ row') = text row ++ text row' := by
  induction row with
  | nil => rfl
  | cons p row ih => simp [text, ih]

theorem length_le (row : Row) : row.length ≤ (text row).length := by
  induction row with
  | nil => exact Nat.zero_le _
  | cons p row ih =>
    simp only [text, List.length_append, List.length_cons]
    omega

/-- An operand of a row leaves room in its text for each operator. -/
theorem length_operandText_le {row : Row} {u : Expr} (hu : u ∈ operands row) :
    u.operandText.length + row.length ≤ (text row).length := by
  induction row with
  | nil => cases hu
  | cons p row ih =>
    have hlen := length_le row
    simp only [text, List.length_append, List.length_cons]
    rcases List.mem_cons.1 hu with rfl | hu
    · omega
    · have := ih hu
      omega

end Row

theorem toList_inParens (s : String) : (inParens true s).toList = '(' :: s.toList ++ [')'] := by
  simp [inParens]

namespace Expr

/-- The operands of an expression outside parentheses. -/
def operands (t : Expr) : List Expr :=
  t.firstOperand :: Row.operands t.others

theorem operands_binary (lhs : Expr) (op : Operator) (rhs : Expr) :
    (Expr.binary lhs op rhs).operands =
      (if needsParens op lhs then [lhs] else lhs.operands) ++
        (if needsParens op rhs then [rhs] else rhs.operands) := by
  rw [operands, firstOperand, others]
  cases needsParens op lhs <;> cases needsParens op rhs <;> simp [Row.operands, operands]

theorem operands_of_not_isBinary {t : Expr} (h : t.isBinary = false) : t.operands = [t] := by
  cases t <;> first | rfl | cases h

/-- What holds of both sides of an operator, and of their operands, holds of its operands. -/
theorem forall_mem_operands_binary {P : Expr → Prop} {lhs rhs : Expr} (op : Operator)
    (hl : P lhs ∧ ∀ u ∈ lhs.operands, P u) (hr : P rhs ∧ ∀ u ∈ rhs.operands, P u) :
    ∀ u ∈ (Expr.binary lhs op rhs).operands, P u := by
  intro u hu
  rw [operands_binary] at hu
  grind

/-- Negations stand in an expression only as operands, when they do in its operands. -/
theorem plainItems_iff_operands (t : Expr) : t.PlainItems ↔ ∀ u ∈ t.operands, u.PlainItems := by
  induction t using Expr.induction with
  | binary lhs op rhs ihl ihr =>
    have hplain : (Expr.binary lhs op rhs).PlainItems ↔ lhs.PlainItems ∧ rhs.PlainItems := by
      simp [PlainItems, Everywhere, HasPlainItems, items]
    rw [hplain, operands_binary]
    grind
  | _ => exact List.forall_mem_singleton.symm

/-- The text of an operand that is not put in parentheses is that of its row. -/
private theorem operand_text (op : Operator) {t : Expr}
    (ih : t.source.toList = t.firstOperand.operandText ++ Row.text t.others) :
    (inParens (needsParens op t) t.source).toList =
      (if needsParens op t then t else t.firstOperand).operandText ++
        Row.text (if needsParens op t then [] else t.others) := by
  cases h : needsParens op t with
  | true => simp [operandText, isBinary_of_needsParens h, Row.text]
  | false => simpa [inParens] using ih

/-- The text of an expression is that of its row. -/
theorem source_eq : (t : Expr) →
    t.source.toList = t.firstOperand.operandText ++ Row.text t.others
  | .binary lhs op rhs => by
    have hl := operand_text op lhs.source_eq
    have hr := operand_text op rhs.source_eq
    have hfirst : (Expr.binary lhs op rhs).firstOperand =
        if needsParens op lhs then lhs else lhs.firstOperand := rfl
    rw [hfirst, source]
    simp only [String.toList_append, hl, hr, others, Row.text_append, Row.text]
    simp
  | .literal .. | .negation .. | .text .. | .list .. | .range .. | .reference .. => by
    simp [firstOperand, others, operandText, isBinary, inParens, Row.text]

/-- How the text of an expression begins: with no blank and no closing mark, and with a parenthesis or an
exclamation mark only when it has operators or is a negation. -/
theorem head?_source (t : Expr) : ∃ c, t.source.toList.head? = some c ∧ isBlank c = false ∧
    c ∉ [')', ']'] ∧ (t.isBinary = false → t.isNegation = false → c ∉ ['(', '!']) := by
  induction t using Expr.induction with
  | literal place v =>
    cases v with
    | null => exact ⟨'n', by simp [source, Literal.source], by decide, by decide, fun _ _ => by decide⟩
    | bool b =>
      cases b with
      | true => exact ⟨'t', by simp [source, Literal.source], by decide, by decide, fun _ _ => by decide⟩
      | false => exact ⟨'f', by simp [source, Literal.source], by decide, by decide, fun _ _ => by decide⟩
    | int n =>
      obtain n | n := n
      · obtain ⟨c, cs, h⟩ := List.exists_cons_of_ne_nil (Nat.toDigits_ne_nil (n := n) (b := 10))
        have hsource : (Expr.literal place (.int (.ofNat n))).source.toList = c :: cs :=
          Nat.toList_repr.trans h
        have hc : isDigit c = true := isDigit_of_mem_toDigits (h ▸ List.mem_cons_self)
        have hne : ∀ d ∈ [')', ']', '(', '!'], c ≠ d := by
          rintro d hd rfl
          simp only [List.mem_cons, List.not_mem_nil, or_false] at hd
          rcases hd with rfl | rfl | rfl | rfl <;> exact absurd hc (by decide)
        refine ⟨c, by rw [hsource]; rfl, isBlank_of_isDigit hc, ?_, fun _ _ => ?_⟩ <;> simp [hne]
      · exact ⟨'-', congrArg List.head? String.toList_append, by decide, by decide, fun _ _ => by decide⟩
  | binary lhs op rhs ihl ihr =>
    simp only [source, String.toList_append, List.append_assoc]
    cases needsParens op lhs with
    | true => exact ⟨'(', by simp [inParens], by decide, by decide, fun h => by cases h⟩
    | false =>
      obtain ⟨c, h, hc, hclose, -⟩ := ihl
      exact ⟨c, by simp [inParens, h], hc, hclose, fun h => by cases h⟩
  | negation place e ih =>
    exact ⟨'!', by simp [source], by decide, by decide, fun _ h => by cases h⟩
  | text place quote nodes =>
    exact ⟨quote.char, by simp [source], by cases quote <;> decide, by cases quote <;> decide,
      fun _ _ => by cases quote <;> decide⟩
  | list place es ih => exact ⟨'[', by simp [source], by decide, by decide, fun _ _ => by decide⟩
  | range place first last ihf ihl => exact ⟨'[', by simp [source], by decide, by decide, fun _ _ => by decide⟩
  | reference place x quiet ss ih => exact ⟨'$', by cases quiet <;> simp [source], by decide, by decide, fun _ _ => by decide⟩

theorem dropWhile_source (t : Expr) (k : List Char) :
    (t.source.toList ++ k).dropWhile isBlank = t.source.toList ++ k := by
  obtain ⟨c, h, hc, -⟩ := t.head?_source
  obtain ⟨cs, h⟩ := List.head?_eq_some_iff.1 h
  rw [h]
  exact List.dropWhile_cons_of_neg (by simp [hc])

theorem dropWhile_operandText (u : Expr) (k : List Char) :
    (u.operandText ++ k).dropWhile isBlank = u.operandText ++ k := by
  rw [operandText]
  cases u.isBinary with
  | true =>
    rw [toList_inParens]
    exact List.dropWhile_cons_of_neg (by decide)
  | false => exact u.dropWhile_source k

theorem length_operandText_le {t u : Expr} (hu : u ∈ t.operands) :
    u.operandText.length + t.others.length ≤ t.source.toList.length := by
  rw [source_eq, List.length_append]
  rcases List.mem_cons.1 hu with rfl | hu
  · have := Row.length_le t.others
    omega
  · have := Row.length_operandText_le hu
    omega

end Expr

end Stencil
