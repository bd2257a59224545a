import Stencil.Proofs.Shape

/-!
# Rows of operands

Operands with operators between them, as they stand in a text outside parentheses, are a row. A grouping
says which operands each operator of a row applies to, and `Climbs` how precedence climbing puts a row
together. Climbing makes of the row of a grouping its expression, when the operators bind by precedence
and associate to the left: `Grouping.climbs`. So an expression whose operators associate to the left is
what climbing makes of its row: `climbs_row`.
-/

namespace Stencil

/-- Operators, each with the operand after it. -/
abbrev Row := List (Operator × Expr)

/-- Every operator binds less tightly than what is no binary expression. -/
theorem Operator.precedence_lt (op : Operator) : op.precedence < 7 := by
  cases op <;> decide

/-- Operands put together by operators. An operand may be a binary expression itself, which then stands in
parentheses. -/
inductive Grouping where
  | operand (e : Expr)
  | binary (lhs : Grouping) (op : Operator) (rhs : Grouping)

namespace Grouping

/-- The expression that a grouping stands for. -/
def expr : Grouping → Expr
  | operand e => e
  | binary lhs op rhs => .binary lhs.expr op rhs.expr

/-- The first operand. -/
def first : Grouping → Expr
  | operand e => e
  | binary lhs _ _ => lhs.first

/-- The operators in order, with the operands after them. -/
def rest : Grouping → Row
  | operand _ => []
  | binary lhs op rhs => lhs.rest ++ (op, rhs.first) :: rhs.rest

/-- How tightly the top binds. An operand binds more tightly than every operator. -/
def strength : Grouping → Nat
  | operand _ => 7
  | binary _ op _ => op.precedence

/-- Whether operators bind by precedence and associate to the left: the top of a left operand binds at
least as tightly as the operator, and the top of a right operand more tightly. -/
def Grouped : Grouping → Prop
  | operand _ => True
  | binary lhs op rhs =>
    lhs.Grouped ∧ rhs.Grouped ∧ op.precedence ≤ lhs.strength ∧ op.precedence < rhs.strength

theorem one_le_strength (g : Grouping) : 1 ≤ g.strength := by
  cases g with
  | operand e => exact Nat.le_of_ble_eq_true rfl
  | binary lhs op rhs => exact op.precedence_pos

end Grouping

namespace Expr

/-- The first operand of an expression that stands outside parentheses. -/
def firstOperand : Expr → Expr
  | .binary lhs op _ => if needsParens op lhs then lhs else lhs.firstOperand
  | e => e

/-- The operators of an expression outside parentheses, with the operands after them. -/
def others : Expr → Row
  | .binary lhs op rhs =>
    (if needsParens op lhs then [] else lhs.others) ++
      (op, if needsParens op rhs then rhs else rhs.firstOperand) ::
        (if needsParens op rhs then [] else rhs.others)
  | _ => []

/-- How the operators of an expression outside parentheses are grouped. -/
def grouping : Expr → Grouping
  | .binary lhs op rhs =>
    .binary (if needsParens op lhs then .operand lhs else lhs.grouping) op
      (if needsParens op rhs then .operand rhs else rhs.grouping)
  | e => .operand e

theorem isBinary_of_needsParens {op : Operator} {e : Expr} (h : needsParens op e = true) :
    e.isBinary = true := by
  cases e with
  | binary lhs inner rhs => rfl
  | _ => cases h

theorem expr_grouping : (t : Expr) → t.grouping.expr = t
  | .binary lhs op rhs => by
    rw [grouping, Grouping.expr]
    congr 1
    · split
      · rfl
      · exact expr_grouping lhs
    · split
      · rfl
      · exact expr_grouping rhs
  | .literal .. | .negation .. | .text .. | .list .. | .range .. | .reference .. => rfl

theorem first_grouping : (t : Expr) → t.grouping.first = t.firstOperand
  | .binary lhs op rhs => by
    rw [grouping, Grouping.first, firstOperand]
    split
    · rfl
    · exact first_grouping lhs
  | .literal .. | .negation .. | .text .. | .list .. | .range .. | .reference .. => rfl

theorem rest_grouping : (t : Expr) → t.grouping.rest = t.others
  | .binary lhs op rhs => by
    rw [grouping, Grouping.rest, others]
    congr 1
    · split
      · rfl
      · exact rest_grouping lhs
    · split
      · rfl
      · rw [first_grouping, rest_grouping]
  | .literal .. | .negation .. | .text .. | .list .. | .range .. | .reference .. => rfl

theorem le_strength_grouping {op : Operator} {e : Expr} (h : needsParens op e = false) :
    op.precedence ≤ e.grouping.strength := by
  cases e with
  | binary lhs inner rhs => simpa [needsParens, grouping, Grouping.strength] using h
  | _ => exact Nat.le_of_lt op.precedence_lt

theorem lt_strength_grouping {op : Operator} {e : Expr} (h : needsParens op e = false)
    (hg : e.precedence? ≠ some op.precedence) : op.precedence < e.grouping.strength := by
  have hle := le_strength_grouping h
  cases e with
  | binary lhs inner rhs =>
    simp only [precedence?, ne_eq, Option.some.injEq, grouping, Grouping.strength] at hg hle ⊢
    omega
  | _ => exact op.precedence_lt

theorem grouped_grouping : (t : Expr) → t.LeftGrouped → t.grouping.Grouped
  | .binary lhs op rhs, ht => by
    obtain ⟨hgroup, hl, hr⟩ := ht
    refine ⟨?_, ?_, ?_, ?_⟩
    · split
      · trivial
      · exact grouped_grouping lhs hl
    · split
      · trivial
      · exact grouped_grouping rhs hr
    · split
      · exact Nat.le_of_lt op.precedence_lt
      · exact le_strength_grouping (eq_false_of_ne_true ‹_›)
    · split
      · exact op.precedence_lt
      · exact lt_strength_grouping (eq_false_of_ne_true ‹_›) hgroup
  | .literal .., _ | .negation .., _ | .text .., _ | .list .., _ | .range .., _ | .reference .., _ => trivial

end Expr

/-- The two ways of going on from an operand: as the left operand of what comes next, while operators bind
at least as tightly as a bound, and as a right operand, while they bind more tightly. -/
inductive Side where
  | left
  | right

/-- Whether an operator is not taken with a bound. -/
def Side.stops : Side → Nat → Operator → Prop
  | left, bound, op => op.precedence < bound
  | right, bound, op => op.precedence ≤ bound

/-- Whether a row begins with no operator that is taken with a bound. -/
def Row.Stops (side : Side) (bound : Nat) (row : Row) : Prop :=
  ∀ p ∈ row.head?, side.stops bound p.1

theorem Row.stops_nil (side : Side) (bound : Nat) : Row.Stops side bound [] :=
  fun _ hp => by cases hp

/-- How precedence climbing goes on from an operand and the row after it: the expression that it makes,
and what it leaves of the row. -/
inductive Climbs : Side → Expr → Row → Nat → Expr → Row → Prop
  | stop {side : Side} {e : Expr} {row : Row} {bound : Nat} (h : row.Stops side bound) :
      Climbs side e row bound e row
  | left {lhs rhs u e : Expr} {op : Operator} {row row₁ row₂ : Row} {least : Nat}
      (hop : least ≤ op.precedence) (right : Climbs .right u row op.precedence rhs row₁)
      (further : Climbs .left (.binary lhs op rhs) row₁ least e row₂) :
      Climbs .left lhs ((op, u) :: row) least e row₂
  | right {rhs rhs' u e : Expr} {op : Operator} {row row₁ row₂ : Row} {bound : Nat}
      (hop : bound < op.precedence) (taken : Climbs .left rhs ((op, u) :: row) op.precedence rhs' row₁)
      (further : Climbs .right rhs' row₁ bound e row₂) :
      Climbs .right rhs ((op, u) :: row) bound e row₂

namespace Climbs

variable {side : Side} {t e : Expr} {op : Operator} {row row' : Row} {bound : Nat}

/-- Climbing leaves an end of the row. -/
theorem isSuffix (h : Climbs side t row bound e row') : row' <:+ row := by
  induction h with
  | stop => exact List.suffix_refl _
  | left _ _ _ ih₁ ih₂ => exact (ih₂.trans ih₁).trans (List.suffix_cons ..)
  | right _ _ _ ih₁ ih₂ => exact ih₂.trans ih₁

/-- Climbing takes the first operator when it binds tightly enough. -/
theorem isSuffix_of_le {u : Expr} (h : Climbs .left t ((op, u) :: row) bound e row')
    (hop : bound ≤ op.precedence) : row' <:+ row := by
  cases h with
  | stop h => exact absurd (h (op, u) rfl) (Nat.not_lt.2 hop)
  | left _ h₁ h₂ => exact h₂.isSuffix.trans h₁.isSuffix

end Climbs

namespace Grouping

/-- An operator with its right operand is taken as a whole, when that operand is. -/
theorem climbs_operator {lhs e : Expr} {op : Operator} {rhs : Grouping} {row row' : Row} {bound : Nat}
    (hright : Climbs .right rhs.first (rhs.rest ++ row) op.precedence rhs.expr row)
    (hop : bound ≤ op.precedence) (h : Climbs .left (.binary lhs op rhs.expr) row bound e row') :
    Climbs .left lhs ((op, rhs.first) :: (rhs.rest ++ row)) bound e row' :=
  .left hop hright h

/-- Goes on to the right from the first operand of a grouping to the whole of it. -/
theorem climbs_right : (g : Grouping) → g.Grouped → ∀ {e : Expr} {row row' : Row} {bound : Nat},
    bound < g.strength → row.Stops .right g.strength → Climbs .right g.expr row bound e row' →
    Climbs .right g.first (g.rest ++ row) bound e row'
  | .operand _, _, _, _, _, _, _, _, h => h
  | .binary lhs op rhs, hg, e, row, row', bound, hb, hrow, h => by
    obtain ⟨hl, hr, hle, hlt⟩ := hg
    change bound < op.precedence at hb
    change row.Stops .right op.precedence at hrow
    have hright : Climbs .right rhs.first (rhs.rest ++ row) op.precedence rhs.expr row :=
      climbs_right rhs hr hlt (fun p hp => Nat.le_trans (hrow p hp) (Nat.le_of_lt hlt)) (.stop hrow)
    -- From the left operand on, the operator is the first that is taken.
    have hwhole : Climbs .right lhs.expr ((op, rhs.first) :: (rhs.rest ++ row)) bound e row' := by
      cases h with
      | stop h =>
        refine .right hb (climbs_operator hright (Nat.le_refl _) (.stop fun p hp => ?_)) (.stop h)
        exact Nat.lt_of_le_of_lt (h p hp) hb
      | @right _ rhs' u _ op' row₀ row₁ _ _ hop taken further =>
        have hle' : op'.precedence ≤ op.precedence := hrow (op', u) rfl
        rcases Nat.lt_or_eq_of_le hle' with hlt' | heq
        · refine .right hb (climbs_operator hright (Nat.le_refl _) (.stop fun p hp => ?_))
            (.right hop taken further)
          cases hp
          exact hlt'
        · rw [heq] at taken
          exact .right hb (climbs_operator hright (Nat.le_refl _) taken) further
    rw [first, rest, List.append_assoc, List.cons_append]
    refine climbs_right lhs hl (Nat.lt_of_lt_of_le hb hle) (fun p hp => ?_) hwhole
    cases hp
    exact hle

/-- Goes on from the first operand of a grouping to the whole of it. -/
theorem climbs_left : (g : Grouping) → g.Grouped → ∀ {e : Expr} {row row' : Row} {least : Nat},
    least ≤ g.strength → row.Stops .right g.strength → Climbs .left g.expr row least e row' →
    Climbs .left g.first (g.rest ++ row) least e row'
  | .operand _, _, _, _, _, _, _, _, h => h
  | .binary lhs op rhs, hg, e, row, row', least, hleast, hrow, h => by
    obtain ⟨hl, hr, hle, hlt⟩ := hg
    change least ≤ op.precedence at hleast
    change row.Stops .right op.precedence at hrow
    have hwhole : Climbs .left lhs.expr ((op, rhs.first) :: (rhs.rest ++ row)) least e row' :=
      climbs_operator (climbs_right rhs hr hlt (fun p hp => Nat.le_trans (hrow p hp) (Nat.le_of_lt hlt))
        (.stop hrow)) hleast h
    rw [first, rest, List.append_assoc, List.cons_append]
    refine climbs_left lhs hl (Nat.le_trans hleast hle) (fun p hp => ?_) hwhole
    cases hp
    exact hle

/-- Climbing makes of the row of a grouping its expression. -/
theorem climbs {g : Grouping} (hg : g.Grouped) : Climbs .left g.first g.rest 1 g.expr [] := by
  simpa using climbs_left g hg g.one_le_strength (Row.stops_nil _ _) (.stop (Row.stops_nil _ _))

end Grouping

/-- Climbing makes an expression of its row, when its operators associate to the left. -/
theorem climbs_row {t : Expr} (ht : t.LeftGrouped) : Climbs .left t.firstOperand t.others 1 t [] := by
  have h := Grouping.climbs (Expr.grouped_grouping t ht)
  rwa [Expr.first_grouping, Expr.rest_grouping, Expr.expr_grouping] at h

end Stencil
