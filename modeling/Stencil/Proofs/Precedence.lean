import Stencil.Proofs.ReadBack
import Stencil.Proofs.ReadFuel
import Stencil.Proofs.ReadingEnds

/-!
# Precedence climbing

A row of operands has exactly one grouping in which operators bind by precedence and associate to the
left: `Grouping.ofRow`, `Grouping.ext`. `Scan.Written` says that a row stands in a text, with operators in any of
their spellings and blanks wherever they keep things apart. Reading an expression there gives the expression
of that grouping, and the scanner after it: `Scan.expr_groups`.
-/

namespace Stencil

open Stencil.Text

/-! ### The grouping of a row -/

namespace Grouping

variable {g g' : Grouping} {op : Operator} {u : Expr} {row : Row}

/-- Adds an operator and the operand after it, as far down on the right as the operator binds more
tightly than those above it. -/
def push (op : Operator) (u : Expr) : Grouping → Grouping
  | operand e => .binary (.operand e) op (.operand u)
  | binary lhs o rhs =>
    if o.precedence < op.precedence then .binary lhs o (rhs.push op u)
    else .binary (.binary lhs o rhs) op (.operand u)

/-- The grouping of a row. -/
def ofRow (u : Expr) (row : Row) : Grouping :=
  row.foldl (fun g p => g.push p.1 p.2) (.operand u)

theorem first_push (g : Grouping) : (g.push op u).first = g.first := by
  induction g with
  | operand e => rfl
  | binary lhs o rhs _ _ =>
    rw [push]
    split <;> rfl

theorem rest_push (g : Grouping) : (g.push op u).rest = g.rest ++ [(op, u)] := by
  induction g with
  | operand e => rfl
  | binary lhs o rhs _ ih =>
    rw [push]
    split
    · rw [rest, rest, ih, first_push, List.append_assoc, List.cons_append]
    · rfl

theorem lt_strength_push {p : Nat} (hg : p < g.strength) (hop : p < op.precedence) :
    p < (g.push op u).strength := by
  cases g with
  | operand e => exact hop
  | binary lhs o rhs =>
    rw [push]
    split
    · exact hg
    · exact hop

theorem grouped_push (hg : g.Grouped) : (g.push op u).Grouped := by
  induction g with
  | operand e => exact ⟨trivial, trivial, Nat.le_of_lt op.precedence_lt, op.precedence_lt⟩
  | binary lhs o rhs _ ih =>
    obtain ⟨hl, hr, hle, hlt⟩ := hg
    rw [push]
    split
    · exact ⟨hl, ih hr, hle, lt_strength_push hlt ‹_›⟩
    · exact ⟨⟨hl, hr, hle, hlt⟩, trivial, Nat.not_lt.1 ‹_›, op.precedence_lt⟩

/-- The grouping of a row is one of that row, by precedence and to the left. -/
theorem ofRow_spec (u : Expr) (row : Row) :
    (ofRow u row).first = u ∧ (ofRow u row).rest = row ∧ (ofRow u row).Grouped := by
  have hadds (row : Row) (g : Grouping) (hg : g.Grouped) :
      (row.foldl (fun g p => g.push p.1 p.2) g).first = g.first ∧
      (row.foldl (fun g p => g.push p.1 p.2) g).rest = g.rest ++ row ∧
      (row.foldl (fun g p => g.push p.1 p.2) g).Grouped := by
    induction row generalizing g with
    | nil => exact ⟨rfl, (List.append_nil _).symm, hg⟩
    | cons p row ih =>
      obtain ⟨hfirst, hrest, hgrouped⟩ := ih (g.push p.1 p.2) (grouped_push hg)
      refine ⟨hfirst.trans (first_push g), ?_, hgrouped⟩
      rw [List.foldl_cons, hrest, rest_push, List.append_assoc]
      rfl
  exact hadds row (.operand u) trivial

/-- No operator binds less tightly than the top. -/
theorem strength_le (hg : g.Grouped) : ∀ p ∈ g.rest, g.strength ≤ p.1.precedence := by
  induction g with
  | operand e => exact fun p hp => by cases hp
  | binary lhs op rhs ihl ihr =>
    obtain ⟨hl, hr, hle, hlt⟩ := hg
    intro p hp
    rcases List.mem_append.1 hp with hp | hp
    · exact Nat.le_trans hle (ihl hl p hp)
    · rcases List.mem_cons.1 hp with rfl | hp
      · exact Nat.le_refl _
      · exact Nat.le_trans (Nat.le_of_lt hlt) (ihr hr p hp)

/-- A row has one operator that binds no more tightly than those before it and less tightly than those
after it. -/
theorem same_top {before before' after after' : Row} {p p' : Operator × Expr}
    (hrow : before ++ p :: after = before' ++ p' :: after')
    (hbefore : ∀ q ∈ before, p.1.precedence ≤ q.1.precedence)
    (hbefore' : ∀ q ∈ before', p'.1.precedence ≤ q.1.precedence)
    (hafter : ∀ q ∈ after, p.1.precedence < q.1.precedence)
    (hafter' : ∀ q ∈ after', p'.1.precedence < q.1.precedence) :
    before = before' ∧ p = p' ∧ after = after' := by
  rcases List.append_eq_append_iff.1 hrow with ⟨_ | ⟨q, between⟩, rfl, hrest⟩ | ⟨_ | ⟨q, between⟩, rfl, hrest⟩
  · obtain ⟨rfl, rfl⟩ := List.cons.inj hrest
    exact ⟨(List.append_nil _).symm, rfl, rfl⟩
  · obtain ⟨rfl, rfl⟩ := List.cons.inj hrest
    have hle := hbefore' p (List.mem_append_right _ List.mem_cons_self)
    have hlt := hafter p' (List.mem_append_right _ List.mem_cons_self)
    omega
  · obtain ⟨rfl, rfl⟩ := List.cons.inj hrest
    exact ⟨List.append_nil _, rfl, rfl⟩
  · obtain ⟨rfl, rfl⟩ := List.cons.inj hrest
    have hle := hbefore p' (List.mem_append_right _ List.mem_cons_self)
    have hlt := hafter' p (List.mem_append_right _ List.mem_cons_self)
    omega

/-- A row has one grouping by precedence and to the left. -/
theorem ext (hg : g.Grouped) (hg' : g'.Grouped) (hfirst : g.first = g'.first) (hrest : g.rest = g'.rest) :
    g = g' := by
  induction g generalizing g' with
  | operand e =>
    cases g' with
    | operand e' => exact congrArg operand hfirst
    | binary lhs' op' rhs' => exact absurd hrest.symm (List.append_ne_nil_of_right_ne_nil _ nofun)
  | binary lhs op rhs ihl ihr =>
    cases g' with
    | operand e' => exact absurd hrest (List.append_ne_nil_of_right_ne_nil _ nofun)
    | binary lhs' op' rhs' =>
      obtain ⟨hl, hr, hle, hlt⟩ := hg
      obtain ⟨hl', hr', hle', hlt'⟩ := hg'
      obtain ⟨hlhs, hop, hrhs⟩ := same_top hrest
        (fun q hq => Nat.le_trans hle (strength_le hl q hq))
        (fun q hq => Nat.le_trans hle' (strength_le hl' q hq))
        (fun q hq => Nat.lt_of_lt_of_le hlt (strength_le hr q hq))
        (fun q hq => Nat.lt_of_lt_of_le hlt' (strength_le hr' q hq))
      obtain ⟨rfl, hright⟩ := Prod.mk.inj hop
      rw [ihl hl hl' hfirst hlhs, ihr hr hr' hright hrhs]

end Grouping

/-! ### Operators in a text -/

/-- The ways of writing an operator. -/
def Operator.spellings : Operator → List String
  | and => ["&&", "and"]
  | or => ["||", "or"]
  | op => [op.symbol]

/-- Whether the spelling of an operator ends before the given characters: a word does not go on with them,
and an ordering has no equals sign after it. -/
def KeptApart (spelling : String) (rest : List Char) : Prop :=
  (spelling ∈ ["and", "or"] → ∀ c ∈ rest.head?, isNameChar c = false) ∧
  (spelling ∈ ["<", ">"] → rest.head? ≠ some '=')

/-- The characters that operators begin with. -/
def operatorStarts : List Char :=
  ['a', 'o', '|', '&', '=', '!', '<', '>', '+', '-', '*', '/', '%']

namespace Scanner

/-- Whether an operator stands after blanks, and the scanner after it. -/
def OperatorAt (s : Scanner) (op : Operator) (t : Scanner) : Prop :=
  ∃ w ∈ op.spellings, ∃ rest, s.skipBlanks.pending = w.toList ++ rest ∧ KeptApart w rest ∧
    t = s.skipBlanks.advanceBy w.toList.length

/-- Whether the text ends after blanks, or goes on with a character that begins no operator. -/
def NoOperator (s : Scanner) : Prop :=
  ∀ c ∈ s.skipBlanks.pending.head?, c ∉ operatorStarts

end Scanner

namespace Scan

variable {readInner : ReadInner} {s t e : Scanner} {op : Operator} {u : Expr} {row : Row}

theorem peek_eq (s : Scanner) : peek s = .ok s.pending.head? s := by
  rw [← s.current_eq]
  rfl

theorem operator_of_none (h : s.NoOperator) : operator s = .ok none s.skipBlanks := by
  rw [operator, bind_ok (x := skipBlanks) rfl, bind_ok (peek_eq _)]
  rw [Scanner.NoOperator] at h
  generalize s.skipBlanks.pending.head? = c at h
  split
  case h_14 => rfl
  all_goals exact absurd (by decide) (h _ rfl)

/-- A name that does not go on is read to its end. -/
theorem name_eq {what w : String} {rest : List Char} (hw : IsName w) (hpending : s.pending = w.toList ++ rest)
    (hrest : ∀ c ∈ rest.head?, isNameChar c = false) :
    name what s = .ok w (s.advanceBy w.toList.length) := by
  obtain ⟨c, cs, hcs, hc, hall⟩ := hw
  have hrun : s.pending.takeWhile isNameChar = w.toList := by
    rw [hpending]
    refine (span_append ?_ hrest).1
    rw [hcs]
    exact List.forall_mem_cons.2 ⟨isNameChar_of_isLetter hc, hall⟩
  have hsees : sees isLetter s = .ok true s := by
    rw [sees, bind_ok (peek_eq s), hpending, hcs, List.cons_append, List.head?_cons, Option.any_some, hc]
    rfl
  have htake : takeWhile isNameChar s = .ok w.toList (s.advanceBy w.toList.length) := by
    rw [← hrun]
    rfl
  rw [name, bind_ok hsees, if_pos rfl]
  refine (bind_ok htake).trans ?_
  rw [String.ofList_toList]
  rfl

theorem wordOperator_eq {w : String} {rest : List Char} (hw : IsName w)
    (hpending : s.pending = w.toList ++ rest) (hrest : ∀ c ∈ rest.head?, isNameChar c = false) :
    wordOperator w op s = .ok (some op) (s.advanceBy w.toList.length) := by
  rw [wordOperator, bind_ok (name_eq hw hpending hrest), if_pos rfl]
  rfl

theorem secondChar_eq {first second : Char} {rest : List Char} (hpending : s.pending = second :: rest) :
    secondChar first second op s = .ok (some op) s.advance := by
  rw [secondChar, bind_ok (peek_eq _), hpending, List.head?_cons, if_pos rfl]
  rfl

theorem orEqual_weak {strict weak : Operator} {rest : List Char} (hpending : s.pending = '=' :: rest) :
    orEqual strict weak s = .ok (some weak) s.advance := by
  rw [orEqual, bind_ok (peek_eq _), hpending, List.head?_cons, if_pos rfl]
  rfl

theorem orEqual_strict {strict weak : Operator} (h : s.pending.head? ≠ some '=') :
    orEqual strict weak s = .ok (some strict) s := by
  rw [orEqual, bind_ok (peek_eq _), if_neg h]
  rfl

theorem operator_of_some (h : s.OperatorAt op t) : operator s = .ok (some op) t := by
  obtain ⟨w, hw, rest, hpending, ⟨hword, hordering⟩, rfl⟩ := h
  have hnext := Scanner.pending_advance s.skipBlanks
  rw [hpending] at hnext
  rw [operator, bind_ok (x := skipBlanks) rfl, bind_ok (peek_eq _), hpending]
  cases op with
  | or =>
    simp only [Operator.spellings, List.mem_cons, List.not_mem_nil, or_false] at hw
    rcases hw with rfl | rfl
    · exact (bind_ok (x := skip) rfl).trans (secondChar_eq hnext)
    · exact wordOperator_eq ⟨'o', ['r'], rfl, rfl, List.all_eq_true.1 rfl⟩ hpending (hword (by simp))
  | and =>
    simp only [Operator.spellings, List.mem_cons, List.not_mem_nil, or_false] at hw
    rcases hw with rfl | rfl
    · exact (bind_ok (x := skip) rfl).trans (secondChar_eq hnext)
    · exact wordOperator_eq ⟨'a', ['n', 'd'], rfl, rfl, List.all_eq_true.1 rfl⟩ hpending (hword (by simp))
  | equal | notEqual =>
    obtain rfl := List.mem_singleton.1 hw
    exact (bind_ok (x := skip) rfl).trans (secondChar_eq hnext)
  | lessOrEqual | greaterOrEqual =>
    obtain rfl := List.mem_singleton.1 hw
    exact (bind_ok (x := skip) rfl).trans (orEqual_weak hnext)
  | less | greater =>
    obtain rfl := List.mem_singleton.1 hw
    refine (bind_ok (x := skip) rfl).trans (orEqual_strict ?_)
    rw [hnext]
    exact hordering (by decide)
  | plus | minus | times | divide | remainder =>
    obtain rfl := List.mem_singleton.1 hw
    rfl

/-! ### A row in a text -/

/-- Whether an operand stands at a scanner, and the scanner after it. -/
def OperandAt (readInner : ReadInner) (s : Scanner) (u : Expr) (t : Scanner) : Prop :=
  ∃ n, unary readInner n s = .ok u t

/-- Whether an operand with a row after it stands at a scanner, and the scanner after the row and the blanks
that follow. -/
inductive Written (readInner : ReadInner) : Scanner → Expr → Row → Scanner → Prop
  | last {s t : Scanner} {u : Expr} (hu : OperandAt readInner s u t) (hend : t.NoOperator) :
      Written readInner s u [] t.skipBlanks
  | more {s t t' e : Scanner} {u v : Expr} {op : Operator} {row : Row} (hu : OperandAt readInner s u t)
      (hop : t.OperatorAt op t') (hrow : Written readInner t' v row e) :
      Written readInner s u ((op, v) :: row) e

/-- What stands at a scanner when the operator that a row begins with has been read. -/
def Ahead (readInner : ReadInner) (row : Row) (s e : Scanner) : Prop :=
  match row with
  | [] => s = e
  | (_, u) :: row => Written readInner s u row e

theorem OperandAt.endsIn (h : OperandAt readInner s u t) (n : Nat) : EndsIn (unary readInner n) s u t := by
  obtain ⟨m, h⟩ := h
  exact Call.unary.endsIn h n

theorem Written.operand (h : Written readInner s u row e) :
    ∃ t t', OperandAt readInner s u t ∧ operator t = .ok row.next t' ∧ Ahead readInner row t' e := by
  cases h with
  | last hu hend => exact ⟨_, _, hu, operator_of_none hend, rfl⟩
  | more hu hop hrow => exact ⟨_, _, hu, operator_of_some hop, hrow⟩

/-- Climbing takes of a row in a text what `Climbs` takes of the row. -/
theorem endsIn_climb {side : Side} {lhs lhs' : Expr} {row row' : Row} {bound : Nat}
    (h : Climbs side lhs row bound lhs' row') (hs : Ahead readInner row s e) :
    ∃ s', Ahead readInner row' s' e ∧
      ∀ n, EndsIn (climbOn readInner side n lhs row.next bound) s (lhs', row'.next) s' := by
  induction h generalizing s with
  | @stop side lhs row bound h =>
    refine ⟨s, hs, fun n => ?_⟩
    cases n with
    | zero => cases side <;> exact .inl ⟨s, rfl⟩
    | succ n =>
      refine .inr ?_
      match row, side with
      | [], .left => rfl
      | [], .right => rfl
      | (op, u) :: row, .left =>
        have hstop : op.precedence < bound := h (op, u) rfl
        show climb readInner (n + 1) lhs (some op) bound s = _
        rw [climb, if_pos hstop]
        rfl
      | (op, u) :: row, .right =>
        have hstop : op.precedence ≤ bound := h (op, u) rfl
        show climbRight readInner (n + 1) lhs (some op) bound s = _
        rw [climbRight, if_pos hstop]
        rfl
  | @left lhs rhs u lhs' op row row₁ row₂ least hop _ _ ihright ihfurther =>
    obtain ⟨t, t', hu, hnext, hahead⟩ := Written.operand hs
    obtain ⟨s₁, hahead₁, hright⟩ := ihright hahead
    obtain ⟨s₂, hahead₂, hfurther⟩ := ihfurther hahead₁
    refine ⟨s₂, hahead₂, fun n => ?_⟩
    cases n with
    | zero => exact .inl ⟨s, rfl⟩
    | succ n =>
      show EndsIn (climb readInner (n + 1) lhs (some op) least) s _ _
      rw [climb, if_neg (Nat.not_lt.2 hop)]
      exact .bind (hu.endsIn n) (.bind (.inr hnext) (.bind (hright n) (hfurther n)))
  | @right rhs rhs' u rhs'' op row row₁ row₂ bound hop _ _ ihtaken ihfurther =>
    obtain ⟨s₁, hahead₁, htaken⟩ := ihtaken hs
    obtain ⟨s₂, hahead₂, hfurther⟩ := ihfurther hahead₁
    refine ⟨s₂, hahead₂, fun n => ?_⟩
    cases n with
    | zero => exact .inl ⟨s, rfl⟩
    | succ n =>
      show EndsIn (climbRight readInner (n + 1) rhs (some op) bound) s _ _
      rw [climbRight, if_neg (Nat.not_le.2 hop)]
      exact .bind (htaken n) (hfurther n)

/-- An expression is read as the grouping of the row that is written there. -/
theorem endsIn_expr {g : Grouping} (hg : g.Grouped) (h : Written readInner s g.first g.rest e) (n : Nat) :
    EndsIn (expr readInner n) s g.expr e := by
  obtain ⟨t, t', hu, hnext, hahead⟩ := h.operand
  obtain ⟨s', rfl, hclimb⟩ := endsIn_climb (Grouping.climbs hg) hahead
  cases n with
  | zero => exact .inl ⟨s, rfl⟩
  | succ n => exact .bind (hu.endsIn n) (.bind (.inr hnext) (.bind (hclimb n) (.inr rfl)))

/-- After a row and the blanks that follow comes no blank and nothing that begins an operator. -/
theorem Written.current (h : Written readInner s u row e) :
    ∀ c ∈ e.current, isBlank c = false ∧ c ∉ operatorStarts := by
  induction h with
  | @last s t u hu hend =>
    intro c hc
    rw [t.skipBlanks.current_eq] at hc
    refine ⟨?_, hend c hc⟩
    rw [t.pending_skipBlanks] at hc
    exact eq_false_of_ne_true fun hblank => List.head?_dropWhile_not isBlank t.pending |> fun h => by
      rw [hc] at h
      simp [hblank] at h
  | more _ _ _ ih => exact ih

/-- Reading an expression where a row of operands is written gives the expression of the one grouping of the
row by precedence and to the left, and stops at the first character after the row and its blanks. Fuel
beyond the work that there is suffices for it. -/
theorem expr_groups (h : Written readInner s u row e) :
    ∃ g : Grouping, (∀ g' : Grouping, g'.first = u ∧ g'.rest = row ∧ g'.Grouped ↔ g' = g) ∧
      (∀ n, EndsIn (expr readInner n) s g.expr e) ∧
      (readInner.Ends → ∀ n, 8 * s.left + 3 < n → expr readInner n s = .ok g.expr e) ∧
      ∀ c ∈ e.current, isBlank c = false ∧ c ∉ operatorStarts := by
  obtain ⟨hfirst, hrest, hgrouped⟩ := Grouping.ofRow_spec u row
  have hends := endsIn_expr (g := .ofRow u row) hgrouped (by rwa [hfirst, hrest])
  refine ⟨.ofRow u row, fun g' => ⟨?_, ?_⟩, hends, fun hinner n hn => ?_, h.current⟩
  · rintro ⟨hfirst', hrest', hgrouped'⟩
    exact Grouping.ext hgrouped' hgrouped (hfirst'.trans hfirst.symm) (hrest'.trans hrest.symm)
  · rintro rfl
    exact ⟨hfirst, hrest, hgrouped⟩
  · exact (hends n).ok (Call.expr.settles hinner trivial hn)

/-- `1 + 2*3 and $a` before a parenthesis: `and` binds the least, and the product is the right operand of
the sum. -/
theorem expr_groups_sum :
    Written Document.readInside (Scanner.ofText "1 + 2*3 and $a )" none) (.literal ⟨none, 1⟩ (.int 1))
      [(.plus, .literal ⟨none, 1⟩ (.int 2)), (.times, .literal ⟨none, 1⟩ (.int 3)),
        (.and, .reference ⟨none, 1⟩ "a" false [])] (Scanner.ofText ")" none) ∧
    8 * (Scanner.ofText "1 + 2*3 and $a )" none).left + 3 < 132 ∧
    expr Document.readInside 132 (Scanner.ofText "1 + 2*3 and $a )" none) = .ok
      (.binary (.binary (.literal ⟨none, 1⟩ (.int 1)) .plus
        (.binary (.literal ⟨none, 1⟩ (.int 2)) .times (.literal ⟨none, 1⟩ (.int 3))))
        .and (.reference ⟨none, 1⟩ "a" false [])) (Scanner.ofText ")" none) := by
  have hone : OperandAt Document.readInside (Scanner.ofText "1 + 2*3 and $a )" none)
      (.literal ⟨none, 1⟩ (.int 1)) (Scanner.ofText "+ 2*3 and $a )" none) := ⟨4, rfl⟩
  have hplus : (Scanner.ofText "+ 2*3 and $a )" none).OperatorAt .plus (Scanner.ofText " 2*3 and $a )" none) :=
    ⟨"+", by decide, " 2*3 and $a )".toList, rfl, ⟨by decide, by decide⟩, rfl⟩
  have htwo : OperandAt Document.readInside (Scanner.ofText " 2*3 and $a )" none)
      (.literal ⟨none, 1⟩ (.int 2)) (Scanner.ofText "*3 and $a )" none) := ⟨4, rfl⟩
  have htimes : (Scanner.ofText "*3 and $a )" none).OperatorAt .times (Scanner.ofText "3 and $a )" none) :=
    ⟨"*", by decide, "3 and $a )".toList, rfl, ⟨by decide, by decide⟩, rfl⟩
  have hthree : OperandAt Document.readInside (Scanner.ofText "3 and $a )" none)
      (.literal ⟨none, 1⟩ (.int 3)) (Scanner.ofText "and $a )" none) := ⟨4, rfl⟩
  have hblank : ∀ c ∈ " $a )".toList.head?, isNameChar c = false := by
    rintro c ⟨⟩
    rfl
  have hand : (Scanner.ofText "and $a )" none).OperatorAt .and (Scanner.ofText " $a )" none) :=
    ⟨"and", by decide, " $a )".toList, rfl, ⟨fun _ => hblank, by decide⟩, rfl⟩
  have ha : OperandAt Document.readInside (Scanner.ofText " $a )" none)
      (.reference ⟨none, 1⟩ "a" false []) (Scanner.ofText ")" none) := ⟨5, rfl⟩
  have hend : (Scanner.ofText ")" none).NoOperator := by
    rintro c ⟨⟩
    decide
  have hwritten := Written.more hone hplus (.more htwo htimes (.more hthree hand (.last ha hend)))
  have hfuel : 8 * (Scanner.ofText "1 + 2*3 and $a )" none).left + 3 < 132 := by decide
  obtain ⟨g, honly, -, hread, -⟩ := expr_groups hwritten
  refine ⟨hwritten, hfuel, (hread Document.readInside_ends 132 hfuel).trans ?_⟩
  rw [← (honly (.ofRow _ _)).1 (Grouping.ofRow_spec _ _)]
  rfl

end Scan

end Stencil
