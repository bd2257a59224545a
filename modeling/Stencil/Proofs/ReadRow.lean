import Stencil.Proofs.RowText

/-!
# Reading a row

Precedence climbing reads of the text of a row what `Climbs` says that it takes: `reads_climb`. So the text
of an expression whose operators associate to the left is read as that expression: `reads_expr`.
-/

namespace Stencil

open Stencil.Text

namespace Scan


variable {p rest : List Char} {Φ : Option Operator → List Char → Prop} {E : ParseError → Prop}

theorem Reads.secondChar {first second : Char} {op : Operator} (h : Φ (some op) rest) :
    Reads (secondChar first second op) (second :: rest) Φ E := by
  refine .bind (.peek ?_)
  rw [List.head?_cons, if_pos rfl]
  exact .bind (.skip (.pure h))

/-- An operator is read to its end. -/
theorem Reads.operator {op : Operator} (hp : p.dropWhile isBlank = op.symbol.toList ++ ' ' :: rest)
    (h : Φ (some op) (' ' :: rest)) : Reads operator p Φ E := by
  refine .bind (.skipBlanks ?_)
  rw [hp]
  cases op with
  | or | and | equal | notEqual => exact .bind (.peek (.bind (.skip (.secondChar h))))
  | lessOrEqual | greaterOrEqual =>
    exact .bind (.peek (.bind (.skip (.bind (.peek (.bind (.skip (.pure h))))))))
  | less | greater => exact .bind (.peek (.bind (.skip (.bind (.peek (.pure h))))))
  | plus | minus | times | divide | remainder => exact .bind (.peek (.bind (.skip (.pure h))))

/-- No operator begins at the end of the text or at a closing parenthesis. -/
theorem Reads.noOperator (hp : p.dropWhile isBlank = [] ∨ ∃ q, p.dropWhile isBlank = ')' :: q)
    (h : Φ none (p.dropWhile isBlank)) : Reads Scan.operator p Φ E := by
  refine .bind (.skipBlanks ?_)
  obtain hp | ⟨q, hp⟩ := hp <;> rw [hp] at h ⊢ <;> exact .bind (.peek (.pure h))

end Scan

/-- Whether the characters after an expression end it: the end of the text, a space, a closing
parenthesis or bracket, a comma, or the dots of a range. -/
inductive Delimits : List Char → Prop
  | endOfText : Delimits []
  | char {c : Char} (q : List Char) (hc : c ∈ [' ', ')', ',', ']']) : Delimits (c :: q)
  | dots (q : List Char) : Delimits ('.' :: '.' :: q)

/-- Whether the characters after an expression with operators end it: the end of the text or a closing
parenthesis. -/
inductive Closes : List Char → Prop
  | endOfText : Closes []
  | parenthesis (q : List Char) : Closes (')' :: q)

theorem Closes.delimits {k : List Char} (h : Closes k) : Delimits k := by
  cases h with
  | endOfText => exact .endOfText
  | parenthesis q => exact .char q (by decide)

theorem Closes.dropWhile {k : List Char} (h : Closes k) : k.dropWhile isBlank = k := by
  cases h with
  | endOfText => rfl
  | parenthesis q => exact List.dropWhile_cons_of_neg (by decide)

namespace Row

/-- The operator that a row begins with. -/
def next (row : Row) : Option Operator :=
  row.head?.map Prod.fst

/-- What is still to be read when the operator that a row begins with has been read. -/
def ahead (k : List Char) : Row → List Char
  | [] => k
  | (_, u) :: row => ' ' :: (u.operandText ++ (text row ++ k))

theorem delimits_text {k : List Char} (hk : Delimits k) (row : Row) : Delimits (text row ++ k) := by
  cases row with
  | nil => exact hk
  | cons p row => exact .char _ (by decide)

end Row

open Scan

theorem Operator.symbol_ne_blank (op : Operator) (rest : List Char) :
    (op.symbol.toList ++ rest).dropWhile isBlank = op.symbol.toList ++ rest := by
  cases op <;> exact List.dropWhile_cons_of_neg (by decide)

theorem dropWhile_dropWhile (c : Char → Bool) (p : List Char) :
    (p.dropWhile c).dropWhile c = p.dropWhile c := by
  induction p with
  | nil => rfl
  | cons d p ih => by_cases h : c d = true <;> simp [h, ih]

/-- The operator that a row begins with is read. -/
theorem reads_next (row : Row) {p k : List Char} {Φ : Option Operator → List Char → Prop}
    {E : ParseError → Prop} (hk : Closes k)
    (hp : p.dropWhile isBlank = (Row.text row ++ k).dropWhile isBlank) (h : Φ row.next (row.ahead k)) :
    Reads operator p Φ E := by
  match row with
  | [] =>
    rw [Row.text, List.nil_append, hk.dropWhile] at hp
    refine .noOperator ?_ (hp ▸ h)
    rw [hp]
    cases hk with
    | endOfText => exact .inl rfl
    | parenthesis q => exact .inr ⟨q, rfl⟩
  | (op, u) :: row =>
    refine .operator ?_ h
    rw [hp, Row.text]
    simp only [List.cons_append, List.append_assoc]
    rw [List.dropWhile_cons_of_pos (by decide), op.symbol_ne_blank]

/-- Whether the text of an operand, with fuel in proportion to its length, is read as that operand, unless
a negation stands in it as an element, bound, argument or index: then it is refused. -/
def Expr.ReadsBack (readInner : ReadInner) (u : Expr) : Prop :=
  ∀ ⦃n : Nat⦄ ⦃p k : List Char⦄, Delimits k → 4 * u.operandText.length + 4 ≤ n →
    p.dropWhile isBlank = u.operandText ++ k →
    Reads (unary readInner n) p
      (fun e q => u.PlainItems ∧ e.bare = u.bare ∧ q = k.dropWhile isBlank) fun _ => ¬ u.PlainItems

/-- How many calls climbing makes beyond those for each operator. -/
def Side.calls : Side → Nat
  | left => 2
  | right => 3

/-- Precedence climbing on one of the two sides. -/
def climbOn (readInner : ReadInner) : Side → Nat → Expr → Option Operator → Nat →
    Scan (Expr × Option Operator)
  | .left => climb readInner
  | .right => climbRight readInner

/-- Climbing reads of the text of a row what it takes of the row. -/
theorem reads_climb {readInner : ReadInner} {side : Side} {e e' : Expr} {row row' : Row} {bound : Nat}
    (h : Climbs side e row bound e' row') (fuel : Nat) {k : List Char} (hk : Closes k)
    (hrow : ∀ u ∈ row.operands, u.ReadsBack readInner ∧ 4 * u.operandText.length + 4 ≤ fuel)
    {n : Nat} (hn : fuel + 2 * row.length + side.calls ≤ n) {e₀ : Expr} (he : e₀.bare = e.bare) :
    Reads (climbOn readInner side n e₀ row.next bound) (row.ahead k)
      (fun r q => r.1.bare = e'.bare ∧ r.2 = row'.next ∧ q = row'.ahead k ∧
        ∀ u ∈ row.operands, u ∈ row'.operands ∨ u.PlainItems)
      fun _ => ∃ u ∈ row.operands, ¬ u.PlainItems := by
  induction h generalizing n e₀ with
  | @stop side e row bound h =>
    have hdone : Reads (pure (e₀, row.next)) (row.ahead k)
        (fun r q => r.1.bare = e.bare ∧ r.2 = row.next ∧ q = row.ahead k ∧
          ∀ u ∈ row.operands, u ∈ row.operands ∨ u.PlainItems)
        fun _ => ∃ u ∈ row.operands, ¬ u.PlainItems := .pure ⟨he, rfl, rfl, fun u hu => .inl hu⟩
    obtain ⟨n, rfl⟩ : ∃ m, n = m + 1 := by
      cases side <;> exact ⟨n - 1, by simp only [Side.calls] at hn; omega⟩
    match row, side with
    | [], .left => exact hdone
    | [], .right => exact hdone
    | (op, u) :: row, .left =>
      have hstop : op.precedence < bound := h (op, u) rfl
      show Reads (climb readInner (n + 1) e₀ (some op) bound) _ _ _
      rw [climb, if_pos hstop]
      exact hdone
    | (op, u) :: row, .right =>
      have hstop : op.precedence ≤ bound := h (op, u) rfl
      show Reads (climbRight readInner (n + 1) e₀ (some op) bound) _ _ _
      rw [climbRight, if_pos hstop]
      exact hdone
  | @left lhs rhs u e op row row₁ row₂ least hop right further ihright ihfurther =>
    obtain ⟨n, rfl⟩ : ∃ m, n = m + 1 := ⟨n - 1, by simp only [Side.calls] at hn; omega⟩
    simp only [List.length_cons, Side.calls] at hn
    obtain ⟨hu, hfuel⟩ := hrow u List.mem_cons_self
    have hrow₁ : ∀ v ∈ Row.operands row, v.ReadsBack readInner ∧ 4 * v.operandText.length + 4 ≤ fuel :=
      fun v hv => hrow v (List.mem_cons_of_mem _ hv)
    have hsuffix := right.isSuffix
    show Reads (climb readInner (n + 1) e₀ (some op) least) (' ' :: (u.operandText ++ (Row.text row ++ k))) _ _
    rw [climb, if_neg (Nat.not_lt.2 hop)]
    refine .bind ((hu (Row.delimits_text hk.delimits row) (by omega)
      (by rw [List.dropWhile_cons_of_pos (by decide), Expr.dropWhile_operandText])).mono ?_
      fun _ h => ⟨u, List.mem_cons_self, h⟩)
    rintro u' _ ⟨hplain, hu', rfl⟩
    refine .bind (reads_next row hk (dropWhile_dropWhile ..) ?_)
    refine .bind ((ihright hrow₁ (by simp only [Side.calls]; omega) hu').mono ?_ ?_)
    · rintro ⟨rhs', next⟩ _ ⟨hrhs, rfl, rfl, hright⟩
      refine (ihfurther (fun v hv => hrow₁ v (List.map_subset _ hsuffix.subset hv))
        (by have := hsuffix.length_le; simp only [Side.calls]; omega)
        (by rw [Expr.bare, he, hrhs, Expr.bare])).mono ?_ ?_
      · rintro r q ⟨hr, hnext, hq, hfurther⟩
        refine ⟨hr, hnext, hq, fun v hv => ?_⟩
        obtain rfl | hv := List.mem_cons.1 hv
        · exact .inr hplain
        · exact (hright v hv).elim (hfurther v) .inr
      · rintro _ ⟨v, hv, h⟩
        exact ⟨v, List.mem_cons_of_mem _ (List.map_subset _ hsuffix.subset hv), h⟩
    · rintro _ ⟨v, hv, h⟩
      exact ⟨v, List.mem_cons_of_mem _ hv, h⟩
  | @right rhs rhs' u e op row row₁ row₂ bound hop taken further ihtaken ihfurther =>
    obtain ⟨n, rfl⟩ : ∃ m, n = m + 1 := ⟨n - 1, by simp only [Side.calls] at hn; omega⟩
    simp only [Side.calls] at hn
    have hsuffix := taken.isSuffix_of_le (Nat.le_refl _)
    have hsub : ∀ {v : Expr}, v ∈ Row.operands row₁ → v ∈ Row.operands ((op, u) :: row) :=
      fun hv => List.mem_cons_of_mem _ (List.map_subset _ hsuffix.subset hv)
    show Reads (climbRight readInner (n + 1) e₀ (some op) bound)
      (' ' :: (u.operandText ++ (Row.text row ++ k))) _ _
    rw [climbRight, if_neg (Nat.not_le.2 hop)]
    refine .bind ((ihtaken hrow (by simp only [Side.calls]; omega) he).mono ?_ fun _ h => h)
    rintro ⟨rhs₁, next⟩ _ ⟨hrhs, rfl, rfl, htaken⟩
    refine (ihfurther (fun v hv => hrow v (hsub hv))
      (by have := hsuffix.length_le; simp only [Side.calls, List.length_cons] at hn ⊢; omega) hrhs).mono ?_ ?_
    · rintro r q ⟨hr, hnext, hq, hfurther⟩
      exact ⟨hr, hnext, hq, fun v hv => (htaken v hv).elim (hfurther v) .inr⟩
    · rintro _ ⟨v, hv, h⟩
      exact ⟨v, hsub hv, h⟩

/-- The text of an expression is read as the expression, when its operands are and its operators
associate to the left. -/
theorem reads_expr {readInner : ReadInner} {t : Expr} (ht : t.LeftGrouped)
    (hread : ∀ u ∈ t.operands, u.ReadsBack readInner) {n : Nat} {k : List Char} (hk : Closes k)
    (hn : 4 * t.source.toList.length + 8 ≤ n) {p : List Char} (hp : p.dropWhile isBlank = t.source.toList ++ k) :
    Reads (expr readInner n) p
      (fun e q => (∀ u ∈ t.operands, u.PlainItems) ∧ e.bare = t.bare ∧ q = k)
      fun _ => ∃ u ∈ t.operands, ¬ u.PlainItems := by
  obtain ⟨n, rfl⟩ : ∃ m, n = m + 1 := ⟨n - 1, by omega⟩
  have hlen : ∀ u ∈ t.operands, 4 * u.operandText.length + 4 + 2 * List.length t.others + 2 ≤ n := by
    intro u hu
    have := Expr.length_operandText_le hu
    omega
  have hfirst := hlen _ List.mem_cons_self
  rw [expr]
  refine .bind ((hread _ List.mem_cons_self (Row.delimits_text hk.delimits t.others) (by omega)
    (by rw [hp, t.source_eq, List.append_assoc])).mono ?_ fun _ h => ⟨_, List.mem_cons_self, h⟩)
  rintro e₀ _ ⟨hplain, he₀, rfl⟩
  refine .bind (reads_next t.others hk (dropWhile_dropWhile ..) ?_)
  refine .bind ((reads_climb (climbs_row ht) (n - (2 * List.length t.others + 2)) hk
    (fun u hu => ⟨hread u (List.mem_cons_of_mem _ hu), ?_⟩) ?_ he₀).mono ?_ ?_)
  · have := hlen u (List.mem_cons_of_mem _ hu)
    omega
  · simp only [Side.calls]
    omega
  · rintro ⟨e, next⟩ _ ⟨he, rfl, rfl, hrow⟩
    refine .pure ⟨fun u hu => ?_, he, rfl⟩
    obtain rfl | hu := List.mem_cons.1 hu
    · exact hplain
    · exact (hrow u hu).resolve_left (by simp [Row.operands])
  · rintro _ ⟨u, hu, h⟩
    exact ⟨u, List.mem_cons_of_mem _ hu, h⟩
end Stencil
