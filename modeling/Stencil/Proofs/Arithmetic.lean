import Mathlib.Data.BitVec
import Stencil.Proofs.Binding
import Stencil.Proofs.Script

/-!
# Arithmetic of words

Arithmetic on integers follows the arithmetic of 32-bit words in two's complement. `Operator.onWords?` gives
the operators on words and `WordTree.value?` what a tree of them gives; an expression over integers that are
words is evaluated to the value of its tree, and no value on the way leaves the words. Integers of any size
are taken in too: sums, differences, products and quotients are words again, but a remainder is not wrapped.
-/

namespace Stencil

open Number

/-- The operators of arithmetic. -/
def Operator.isArithmetic : Operator → Bool
  | plus | minus | times | divide | remainder => true
  | _ => false

/-- An operator of arithmetic on words: sums, differences and products are taken modulo the number of words,
division goes toward zero and the remainder has the sign of the dividend. Nothing is divided by zero. -/
def Operator.onWords? : Operator → BitVec 32 → BitVec 32 → Option (BitVec 32)
  | plus, a, b => some (a + b)
  | minus, a, b => some (a - b)
  | times, a, b => some (a * b)
  | divide, a, b => if b = 0 then none else some (a.sdiv b)
  | remainder, a, b => if b = 0 then none else some (a.srem b)
  | _, _, _ => none

/-- A tree of operators over words. -/
inductive WordTree where
  | word (w : BitVec 32)
  | apply (lhs : WordTree) (op : Operator) (rhs : WordTree)

/-- The word that a tree gives. Where an operand gives none, neither does the operator. -/
def WordTree.value? : WordTree → Option (BitVec 32)
  | word w => some w
  | apply lhs op rhs => do op.onWords? (← lhs.value?) (← rhs.value?)

/-! ### Words as integers -/

namespace Number

theorem isWord_toInt (w : BitVec 32) : isWord w.toInt = true := by
  have hle := w.le_toInt
  have hlt := w.toInt_lt
  rw [isWord_iff]
  omega

theorem toInt_ofInt {n : Int} (h : isWord n = true) : (BitVec.ofInt 32 n).toInt = n := by
  rw [BitVec.toInt_ofInt]
  exact wrap_of_isWord h

theorem toInt_eq_zero {w : BitVec 32} : w.toInt = 0 ↔ w = 0 := by
  rw [← BitVec.toInt_inj]
  simp

/-- A remainder by a word, or of a word, is a word. -/
theorem isWord_tmod {a b : Int} (hb : b ≠ 0) (h : isWord a = true ∨ isWord b = true) :
    isWord (a.tmod b) = true := by
  have habs : (a.tmod b).natAbs = a.natAbs % b.natAbs := Int.natAbs_tmod a b
  have hdivisor : a.natAbs % b.natAbs < b.natAbs := Nat.mod_lt _ (by omega)
  have hdividend : a.natAbs % b.natAbs ≤ a.natAbs := Nat.mod_le _ _
  have hnegative : a ≤ 0 → a.tmod b ≤ 0 := by
    intro ha
    have hneg := Int.tmod_nonneg b (Int.neg_nonneg_of_nonpos ha)
    rw [Int.neg_tmod] at hneg
    omega
  simp only [isWord_iff] at h ⊢
  rcases h with h | h
  · omega
  · omega

/-- Dividing and multiplying back leaves the remainder to be added. -/
theorem sdiv_mul_add_srem (a b : BitVec 32) : a.sdiv b * b + a.srem b = a := by
  apply BitVec.eq_of_toInt_eq
  have hsum : a.toInt.tdiv b.toInt * b.toInt + a.toInt.tmod b.toInt = a.toInt := by
    rw [Int.mul_comm]
    exact Int.mul_tdiv_add_tmod _ _
  rw [BitVec.toInt_add, BitVec.toInt_mul, BitVec.toInt_sdiv, BitVec.toInt_srem, Int.bmod_mul_bmod,
    Int.bmod_add_bmod, hsum]
  exact wrap_of_isWord (isWord_toInt a)

end Number

/-- An operator on integers that are words is the operator on the words. -/
theorem Operator.apply_toInt {op : Operator} (h : op.isArithmetic = true) (a b : BitVec 32) :
    op.apply a.toInt b.toInt = valueOfInt? ((op.onWords? a b).map BitVec.toInt) := by
  have hwrap (n : Int) : wrap n = n.bmod (2 ^ 32) := rfl
  have hzero : b.toInt = 0 ↔ b = 0 := toInt_eq_zero
  cases op with
  | plus => simp [apply, onWords?, valueOfInt?, hwrap, BitVec.toInt_add]
  | minus => simp [apply, onWords?, valueOfInt?, hwrap, BitVec.toInt_sub]
  | times => simp [apply, onWords?, valueOfInt?, hwrap, BitVec.toInt_mul]
  | divide =>
    by_cases hb : b = 0#32
    · simp [apply, onWords?, quotient?, hb]
    · simp [apply, onWords?, quotient?, hb, hzero, hwrap, BitVec.toInt_sdiv]
  | remainder =>
    by_cases hb : b = 0#32
    · simp [apply, onWords?, remainder?, hb]
    · have hne : b.toInt ≠ 0 := fun h => hb (hzero.1 h)
      rw [apply, remainder?_eq_tmod hne]
      simp [onWords?, hb, BitVec.toInt_srem]
  | or | and | equal | notEqual | less | lessOrEqual | greater | greaterOrEqual => cases h

/-! ### Evaluation -/

/-- What an operator of arithmetic gives for two integers of which either may be missing. -/
def Operator.onOptions (op : Operator) : Option Int → Option Int → Value
  | some a, some b => op.apply a b
  | _, _ => .null

section

variable {d : Deeper} {scope : Scope} {lhs rhs : Expr} {op : Operator} {s s₁ s₂ : Store}

theorem run_integerOperand (place : Place) (n : Option Int) :
    (integerOperand place (valueOfInt? n) : Script scope (Option Int)).run d s = .ok n s := by
  cases n with
  | none => rfl
  | some n => rfl

theorem run_arithmetic (h : op.isArithmetic = true) (place : Place) (a b : Option Int) :
    (arithmetic place lhs op rhs a b : Script scope Value).run d s = .ok (op.onOptions a b) s := by
  have hordering : op.isOrdering = false := by
    cases op with
    | plus | minus | times | divide | remainder => rfl
    | or | and | equal | notEqual | less | lessOrEqual | greater | greaterOrEqual => cases h
  cases a with
  | none => simp [arithmetic, hordering]; rfl
  | some a =>
    cases b with
    | none => simp [arithmetic, hordering]; rfl
    | some b => rfl

theorem run_plus (place : Place) (a b : Option Int) :
    (plus place lhs rhs (valueOfInt? a) (valueOfInt? b) : Script scope Value).run d s =
      .ok (Operator.plus.onOptions a b) s := by
  cases a with
  | none => cases b <;> rfl
  | some a => cases b <;> rfl

/-- Operands are evaluated from left to right, and then the operator is applied to their integers. -/
theorem run_binary (h : op.isArithmetic = true) {a b : Option Int}
    (hl : (evalExpr scope lhs false).run d s = .ok (valueOfInt? a) s₁)
    (hr : (evalExpr scope rhs false).run d s₁ = .ok (valueOfInt? b) s₂) (lenient : Bool) :
    (evalExpr scope (.binary lhs op rhs) lenient).run d s = .ok (op.onOptions a b) s₂ := by
  have hoperands : ((do
      let a ← integerOperand lhs.place (← evalExpr scope lhs false)
      let b ← integerOperand rhs.place (← evalExpr scope rhs false)
      arithmetic lhs.place lhs op rhs a b : Script scope Value)).run d s = .ok (op.onOptions a b) s₂ := by
    refine (Run.bind_ok hl).trans ?_
    refine (Run.bind_ok (run_integerOperand lhs.place a)).trans ?_
    refine (Run.bind_ok hr).trans ?_
    refine (Run.bind_ok (run_integerOperand rhs.place b)).trans ?_
    exact run_arithmetic h lhs.place a b
  cases op with
  | plus =>
    rw [evalExpr]
    refine (Run.bind_ok hl).trans ?_
    refine (Run.bind_ok hr).trans ?_
    exact run_plus lhs.place a b
  | minus | times | divide | remainder =>
    rw [evalExpr.eq_def]
    exact hoperands
  | or | and | equal | notEqual | less | lessOrEqual | greater | greaterOrEqual => cases h

/-! ### Trees -/

/-- Whether a value is null or an integer that is a word. -/
def Value.IsWordOrNull (v : Value) : Prop :=
  v = .null ∨ ∃ n, v = .int n ∧ isWord n = true

/-- An expression of arithmetic over words in an evaluation from one store to another. Its leaves are integers
that are words, or variables that give such integers when they are read; the tree holds their words. -/
inductive Expr.Computes (d : Deeper) (scope : Scope) : Expr → Store → WordTree → Store → Prop
  | literal {p : Place} {n : Int} {s : Store} (h : isWord n = true) :
      Computes d scope (.literal p (.int n)) s (.word (.ofInt 32 n)) s
  | bound {p : Place} {x : String} {quiet : Bool} {n : Int} {s s' : Store}
      (hdefined : (s.lookup scope x).isDefined = true)
      (hread : (s.lookup scope x).value d s = .ok (.int n) s') (h : isWord n = true) :
      Computes d scope (.reference p x quiet []) s (.word (.ofInt 32 n)) s'
  | binary {lhs rhs : Expr} {op : Operator} {t u : WordTree} {s s₁ s' : Store}
      (hop : op.isArithmetic = true) (hl : Computes d scope lhs s t s₁)
      (hr : Computes d scope rhs s₁ u s') :
      Computes d scope (.binary lhs op rhs) s (.apply t op u) s'

/-- Whether the value of an expression, and of each operand in it, is null or a word in an evaluation from one
store to another. -/
inductive Expr.StaysInWords (d : Deeper) (scope : Scope) : Expr → Store → Store → Prop
  | leaf {e : Expr} {v : Value} {s s' : Store} (h : (evalExpr scope e false).run d s = .ok v s')
      (hv : v.IsWordOrNull) : StaysInWords d scope e s s'
  | binary {lhs rhs : Expr} {op : Operator} {v : Value} {s s₁ s' : Store}
      (hl : StaysInWords d scope lhs s s₁) (hr : StaysInWords d scope rhs s₁ s')
      (h : (evalExpr scope (.binary lhs op rhs) false).run d s = .ok v s') (hv : v.IsWordOrNull) :
      StaysInWords d scope (.binary lhs op rhs) s s'

theorem isWordOrNull_word (w : Option (BitVec 32)) :
    (valueOfInt? (w.map BitVec.toInt)).IsWordOrNull := by
  cases w with
  | none => exact .inl rfl
  | some w => exact .inr ⟨w.toInt, rfl, isWord_toInt w⟩

/-- An operator on the words of two trees gives the word of both. -/
theorem onOptions_value {op : Operator} (h : op.isArithmetic = true) (t u : WordTree) :
    op.onOptions (t.value?.map BitVec.toInt) (u.value?.map BitVec.toInt) =
      valueOfInt? ((WordTree.apply t op u).value?.map BitVec.toInt) := by
  rw [WordTree.value?]
  cases t.value? with
  | none => rfl
  | some a =>
    cases u.value? with
    | none => rfl
    | some b => exact op.apply_toInt h a b

variable {e f : Expr} {t : WordTree} {s' : Store}

/-- An expression over words is evaluated to the value of its tree. -/
theorem Expr.Computes.run (h : e.Computes d scope s t s') (lenient : Bool) :
    (evalExpr scope e lenient).run d s = .ok (valueOfInt? (t.value?.map BitVec.toInt)) s' := by
  induction h generalizing lenient with
  | @literal p n s h =>
    have hvalue : valueOfInt? ((WordTree.word (.ofInt 32 n)).value?.map BitVec.toInt) = .int n := by
      simp [WordTree.value?, valueOfInt?, toInt_ofInt h]
    rw [hvalue, evalExpr]
    rfl
  | @bound p x quiet n s s' hdefined hread h =>
    have hvalue : valueOfInt? ((WordTree.word (.ofInt 32 n)).value?.map BitVec.toInt) = .int n := by
      simp [WordTree.value?, valueOfInt?, toInt_ofInt h]
    have hask : (Act.defined x).run d.fuel scope s = .ok true s := by
      show EStateM.Result.ok (s.isDefined scope x) s = _
      rw [Store.isDefined_eq, hdefined]
    have hgives : (Script.read x : Script scope Value).run d s = .ok (.int n) s' := by
      show Run.read d scope x s = _
      rw [Run.read_eq, hread]
    rw [hvalue, evalExpr]
    refine (Run.bind_ok hask).trans ?_
    refine (Run.bind_ok hgives).trans ?_
    simp only [evalSuffixes]
    rfl
  | binary hop _ _ ihl ihr =>
    rw [run_binary hop (ihl false) (ihr false) lenient]
    rw [onOptions_value hop]

theorem Expr.Computes.staysInWords (h : e.Computes d scope s t s') : e.StaysInWords d scope s s' := by
  have hrun := h.run false
  have hword := isWordOrNull_word t.value?
  induction h with
  | literal | bound => exact .leaf hrun hword
  | binary _ hl hr ihl ihr =>
    have hlhs := ihl (hl.run false) (isWordOrNull_word _)
    have hrhs := ihr (hr.run false) (isWordOrNull_word _)
    exact .binary hlhs hrhs hrun hword

/-- Arithmetic is that of machine words. An expression over integers that are words, written down or held by
variables, is evaluated to the value of its tree over 32-bit words in two's complement, where nothing is
divided by zero and an operator without an operand gives nothing, and each value on the way is null or a word.
So a quotient times its divisor and the remainder make the dividend, and the smallest word divided by `-1` is
itself. -/
theorem arithmetic_of_words (d : Deeper) (scope : Scope) :
    (∀ e s t s', Expr.Computes d scope e s t s' →
      (∀ lenient, (evalExpr scope e lenient).run d s =
        .ok (valueOfInt? (t.value?.map BitVec.toInt)) s') ∧ e.StaysInWords d scope s s') ∧
    (∀ e f s a b lenient, Expr.Computes d scope e s (.word a) s → Expr.Computes d scope f s (.word b) s →
      b ≠ 0 → (evalExpr scope
        (.binary (.binary (.binary e .divide f) .times f) .plus (.binary e .remainder f)) lenient).run d s =
          .ok (.int a.toInt) s) ∧
    ∀ p q s lenient, (evalExpr scope
      (.binary (.literal p (.int minWord)) .divide (.literal q (.int (-1)))) lenient).run d s =
        .ok (.int minWord) s := by
  refine ⟨fun e s t s' h => ⟨h.run, h.staysInWords⟩, ?_, ?_⟩
  · intro e f s a b lenient he hf hb
    have hquotient := Expr.Computes.binary (rfl : Operator.divide.isArithmetic = true) he hf
    have hproduct := Expr.Computes.binary (rfl : Operator.times.isArithmetic = true) hquotient hf
    have hremainder := Expr.Computes.binary (rfl : Operator.remainder.isArithmetic = true) he hf
    have hsum := Expr.Computes.binary (rfl : Operator.plus.isArithmetic = true) hproduct hremainder
    have hvalue : (WordTree.apply (.apply (.apply (.word a) .divide (.word b)) .times (.word b)) .plus
        (.apply (.word a) .remainder (.word b))).value? = some a := by
      simp only [WordTree.value?, Operator.onWords?, Option.bind_eq_bind, Option.bind_some, if_neg hb,
        sdiv_mul_add_srem]
    rw [hsum.run, hvalue]
    rfl
  · intro p q s lenient
    have hsmallest : Expr.Computes d scope (.literal p (.int minWord)) s (.word (.ofInt 32 minWord)) s :=
      .literal (by decide)
    have hminus : Expr.Computes d scope (.literal q (.int (-1))) s (.word (.ofInt 32 (-1))) s :=
      .literal (by decide)
    have hvalue : (WordTree.apply (.word (.ofInt 32 minWord)) .divide (.word (.ofInt 32 (-1)))).value? =
        some (.ofInt 32 minWord) := by decide
    rw [(Expr.Computes.binary (rfl : Operator.divide.isArithmetic = true) hsmallest hminus).run, hvalue]
    rfl

/-- The product of two variables wraps around to the smallest word, and a quotient is taken from it. -/
theorem arithmetic_of_words_in_variables :
    let place : Place := ⟨none, 1⟩
    let x : Expr := .reference place "x" false []
    let y : Expr := .reference place "y" false []
    let e : Expr := .binary (.binary x .times y) .minus (.binary x .divide (.literal place (.int 7)))
    let start := ({} : Store).enterRoot
      ⟨[("x", .int (-2147483648)), ("y", .int 3)], [], .standard, ⟨0⟩⟩
    let t := WordTree.apply (.apply (.word (.ofInt 32 (-2147483648))) .times (.word (.ofInt 32 3))) .minus
      (.apply (.word (.ofInt 32 (-2147483648))) .divide (.word (.ofInt 32 7)))
    Expr.Computes (Deeper.within 0) start.1 e start.2 t start.2 ∧
      (evalExpr start.1 e false).run (Deeper.within 0) start.2 = .ok (.int (-1840700270)) start.2 := by
  intro place x y e start t
  have hx : Expr.Computes (Deeper.within 0) start.1 x start.2 (.word (.ofInt 32 (-2147483648))) start.2 :=
    .bound rfl rfl (by decide)
  have hy : Expr.Computes (Deeper.within 0) start.1 y start.2 (.word (.ofInt 32 3)) start.2 :=
    .bound rfl rfl (by decide)
  have hseven : Expr.Computes (Deeper.within 0) start.1 (.literal place (.int 7)) start.2
      (.word (.ofInt 32 7)) start.2 := .literal (by decide)
  have he : Expr.Computes (Deeper.within 0) start.1 e start.2 t start.2 :=
    .binary rfl (.binary rfl hx hy) (.binary rfl hx hseven)
  have hvalue : t.value? = some (.ofInt 32 (-1840700270)) := by decide
  have hrun := ((arithmetic_of_words (Deeper.within 0) start.1).1 e start.2 t start.2 he).1 false
  rw [hvalue] at hrun
  exact ⟨he, hrun⟩

/-! ### Integers of any size -/

/-- The result of an operator on integers of any size. Sums, differences, products and quotients are wrapped,
and nothing is divided by zero; a remainder is not wrapped. It is a word if one of the operands is. -/
theorem Operator.isWordOrNull_apply (op : Operator) (h : op.isArithmetic = true) (a b : Int) :
    (op ≠ .remainder → (op.apply a b).IsWordOrNull) ∧
    (op = .remainder → op.apply a b = if b = 0 then .null else .int (a.tmod b)) ∧
    (isWord a = true ∨ isWord b = true → (op.apply a b).IsWordOrNull) := by
  cases op with
  | plus | minus | times =>
    have hword (n : Int) : (Value.int (wrap n)).IsWordOrNull := .inr ⟨wrap n, rfl, isWord_wrap n⟩
    exact ⟨fun _ => hword _, nofun, fun _ => hword _⟩
  | divide =>
    have hword : (Operator.apply .divide a b).IsWordOrNull := by
      by_cases hb : b = 0
      · simp [apply, quotient?, hb, valueOfInt?, Value.IsWordOrNull]
      · simp [apply, quotient?, hb, valueOfInt?, Value.IsWordOrNull, isWord_wrap]
    exact ⟨fun _ => hword, nofun, fun _ => hword⟩
  | remainder =>
    have hresult : Operator.apply .remainder a b = if b = 0 then .null else .int (a.tmod b) := by
      by_cases hb : b = 0
      · simp [apply, remainder?, hb, valueOfInt?]
      · rw [apply, remainder?_eq_tmod hb, if_neg hb, valueOfInt?]
    refine ⟨fun hne => absurd rfl hne, fun _ => hresult, fun hword => ?_⟩
    rw [hresult]
    by_cases hb : b = 0
    · exact .inl (if_pos hb)
    · exact .inr ⟨a.tmod b, if_neg hb, isWord_tmod hb hword⟩
  | or | and | equal | notEqual | less | lessOrEqual | greater | greaterOrEqual => cases h

/-- What arithmetic on integers of any size produces. It always gives a value; that is null or a word for each
operator but the remainder. A remainder is the one of the integers as they are, and is null for a zero divisor;
so it is a word if the dividend or the divisor is one. -/
theorem arithmetic_yields_words (hop : op.isArithmetic = true) {a b : Int}
    (hl : (evalExpr scope lhs false).run d s = .ok (.int a) s₁)
    (hr : (evalExpr scope rhs false).run d s₁ = .ok (.int b) s₂) (lenient : Bool) :
    ∃ v, (evalExpr scope (.binary lhs op rhs) lenient).run d s = .ok v s₂ ∧
      (op ≠ .remainder → v.IsWordOrNull) ∧
      (op = .remainder → v = if b = 0 then .null else .int (a.tmod b)) ∧
      (isWord a = true ∨ isWord b = true → v.IsWordOrNull) := by
  have hrun : (evalExpr scope (.binary lhs op rhs) lenient).run d s = .ok (op.apply a b) s₂ :=
    run_binary (a := some a) (b := some b) hop hl hr lenient
  exact ⟨op.apply a b, hrun, op.isWordOrNull_apply hop a b⟩

/-- The remainder of two variables that hold more than a word is no word. -/
theorem arithmetic_yields_words_but_remainder :
    let place : Place := ⟨none, 1⟩
    let x : Expr := .reference place "x" false []
    let y : Expr := .reference place "y" false []
    let start := ({} : Store).enterRoot
      ⟨[("x", .int 1099511627776), ("y", .int 549755813889)], [], .standard, ⟨0⟩⟩
    (evalExpr start.1 x false).run (Deeper.within 0) start.2 = .ok (.int 1099511627776) start.2 ∧
      (evalExpr start.1 y false).run (Deeper.within 0) start.2 = .ok (.int 549755813889) start.2 ∧
      (evalExpr start.1 (.binary x .remainder y) false).run (Deeper.within 0) start.2 =
        .ok (.int 549755813887) start.2 ∧
      isWord 549755813887 = false := by
  intro place x y start
  have hx : (evalExpr start.1 x false).run (Deeper.within 0) start.2 = .ok (.int 1099511627776) start.2 := rfl
  have hy : (evalExpr start.1 y false).run (Deeper.within 0) start.2 = .ok (.int 549755813889) start.2 := rfl
  obtain ⟨v, hrun, -, hresult, -⟩ := arithmetic_yields_words
    (rfl : Operator.remainder.isArithmetic = true) hx hy false
  obtain rfl : v = .int 549755813887 := hresult rfl
  exact ⟨hx, hy, hrun, by decide⟩

end

end Stencil
