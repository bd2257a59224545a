import Stencil.Number.Word
import Stencil.Template.ReadDocument
import Stencil.Template.Source

/-!
# The shape of an expression

What can be said of an expression without the places that it was read from, which `Expr.bare` leaves out.
`Expr.Everywhere` says something of an expression and of all its parts; by it are defined how operators are
grouped, where negations stand, and what an expression that was read looks like. Between double quotes
stands a template, whose nodes are no parts of the expression.
-/

namespace Stencil

open Stencil.Text

mutual

/-- An expression without the places that it was read from. -/
def Expr.bare : Expr → Expr
  | .literal _ v => .literal default v
  | .binary lhs op rhs => .binary lhs.bare op rhs.bare
  | .negation _ e => .negation default e.bare
  | .text _ quote nodes => .text default quote (nodesBare nodes)
  | .list _ es => .list default (exprsBare es)
  | .range _ first last => .range default first.bare last.bare
  | .reference _ x quiet ss => .reference default x quiet (suffixesBare ss)

/-- Expressions without their places. -/
def exprsBare : List Expr → List Expr
  | [] => []
  | e :: es => e.bare :: exprsBare es

/-- A suffix without places. -/
def Suffix.bare : Suffix → Suffix
  | .member m => .member m
  | .method m args => .method m (exprsBare args)
  | .index key => .index key.bare

/-- Suffixes without places. -/
def suffixesBare : List Suffix → List Suffix
  | [] => []
  | s :: ss => s.bare :: suffixesBare ss

/-- A node without places. -/
def Node.bare : Node → Node
  | .text _ s => .text default s
  | .comment _ => .comment default
  | .sequence _ nodes => .sequence default (nodesBare nodes)
  | .output e => .output e.bare
  | .assign x e => .assign x e.bare
  | .choose _ condition yes no => .choose default condition.bare (nodesBare yes) no.bare
  | .foreach _ x collection body => .foreach default x collection.bare (nodesBare body)
  | .leave _ => .leave default
  | .leaveScope _ scope => .leaveScope default scope.bare
  | .define _ x body => .define default x (nodesBare body)
  | .call _ name args => .call default name (exprsBare args)
  | .callWith _ name args _ body => .callWith default name (exprsBare args) 0 (nodesBare body)
  | .parse _ name => .parse default name.bare
  | .evaluate _ source => .evaluate default source.bare

/-- Nodes without places. -/
def nodesBare : List Node → List Node
  | [] => []
  | n :: ns => n.bare :: nodesBare ns

end

theorem exprsBare_eq_map (es : List Expr) : exprsBare es = es.map Expr.bare := by
  induction es with
  | nil => rfl
  | cons e es ih => rw [exprsBare, ih, List.map_cons]

theorem suffixesBare_eq_map (ss : List Suffix) : suffixesBare ss = ss.map Suffix.bare := by
  induction ss with
  | nil => rfl
  | cons s ss ih => rw [suffixesBare, ih, List.map_cons]

mutual

/-- Whether something holds of an expression and of all its parts. -/
def Expr.Everywhere (P : Expr → Prop) : Expr → Prop
  | .literal place v => P (.literal place v)
  | .binary lhs op rhs => P (.binary lhs op rhs) ∧ lhs.Everywhere P ∧ rhs.Everywhere P
  | .negation place e => P (.negation place e) ∧ e.Everywhere P
  | .text place quote nodes => P (.text place quote nodes)
  | .list place es => P (.list place es) ∧ exprsEverywhere P es
  | .range place first last =>
    P (.range place first last) ∧ first.Everywhere P ∧ last.Everywhere P
  | .reference place x quiet ss => P (.reference place x quiet ss) ∧ suffixesEverywhere P ss

/-- Whether something holds of several expressions and of all their parts. -/
def exprsEverywhere (P : Expr → Prop) : List Expr → Prop
  | [] => True
  | e :: es => e.Everywhere P ∧ exprsEverywhere P es

/-- Whether something holds of all expressions in a suffix. -/
def Suffix.Everywhere (P : Expr → Prop) : Suffix → Prop
  | .member _ => True
  | .method _ args => exprsEverywhere P args
  | .index key => key.Everywhere P

/-- Whether something holds of all expressions in several suffixes. -/
def suffixesEverywhere (P : Expr → Prop) : List Suffix → Prop
  | [] => True
  | s :: ss => s.Everywhere P ∧ suffixesEverywhere P ss

end

/-- The expressions that stand in a suffix. -/
def Suffix.items : Suffix → List Expr
  | .member _ => []
  | .method _ args => args
  | .index key => [key]

section Everywhere

variable {P : Expr → Prop}

theorem exprsEverywhere_iff {es : List Expr} : exprsEverywhere P es ↔ ∀ e ∈ es, e.Everywhere P := by
  induction es with
  | nil => simp [exprsEverywhere]
  | cons e es ih => simp [exprsEverywhere, ih]

theorem Suffix.everywhere_iff {s : Suffix} : s.Everywhere P ↔ ∀ i ∈ s.items, i.Everywhere P := by
  cases s with
  | member m => simp [Suffix.Everywhere, Suffix.items]
  | method m args => exact exprsEverywhere_iff
  | index key => simp [Suffix.Everywhere, Suffix.items]

theorem suffixesEverywhere_iff {ss : List Suffix} :
    suffixesEverywhere P ss ↔ ∀ s ∈ ss, ∀ i ∈ s.items, i.Everywhere P := by
  induction ss with
  | nil => simp [suffixesEverywhere]
  | cons s ss ih => simp [suffixesEverywhere, ih, Suffix.everywhere_iff]

end Everywhere

theorem Suffix.sizeOf_lt_of_mem {s : Suffix} {i : Expr} (hi : i ∈ s.items) : sizeOf i < sizeOf s := by
  cases s with
  | member m => cases hi
  | method m args =>
    have : sizeOf i < sizeOf args := List.sizeOf_lt_of_mem hi
    simp only [Suffix.method.sizeOf_spec]
    omega
  | index key =>
    obtain rfl := List.mem_singleton.1 hi
    simp only [Suffix.index.sizeOf_spec]
    omega

/-- What holds of an expression when it holds of its parts, holds of every expression. -/
@[elab_as_elim]
theorem Expr.induction {P : Expr → Prop}
    (literal : ∀ place v, P (.literal place v))
    (binary : ∀ lhs op rhs, P lhs → P rhs → P (.binary lhs op rhs))
    (negation : ∀ place e, P e → P (.negation place e))
    (text : ∀ place quote nodes, P (.text place quote nodes))
    (list : ∀ place es, (∀ e ∈ es, P e) → P (.list place es))
    (range : ∀ place first last, P first → P last → P (.range place first last))
    (reference : ∀ place x quiet ss, (∀ s ∈ ss, ∀ i ∈ s.items, P i) →
      P (.reference place x quiet ss)) : (t : Expr) → P t
  | .literal place v => literal place v
  | .binary lhs op rhs => by
    refine binary lhs op rhs ?_ ?_ <;>
      exact Expr.induction literal binary negation text list range reference _
  | .negation place e =>
    negation place e (Expr.induction literal binary negation text list range reference e)
  | .text place quote nodes => text place quote nodes
  | .list place es => list place es fun e _ =>
    Expr.induction literal binary negation text list range reference e
  | .range place first last => by
    refine range place first last ?_ ?_ <;>
      exact Expr.induction literal binary negation text list range reference _
  | .reference place x quiet ss => reference place x quiet ss fun s _ i _ =>
    Expr.induction literal binary negation text list range reference i
termination_by t => sizeOf t
decreasing_by
  · decreasing_tactic
  · decreasing_tactic
  · decreasing_tactic
  · rename_i he
    have := List.sizeOf_lt_of_mem he
    simp only [Expr.list.sizeOf_spec]
    omega
  · decreasing_tactic
  · decreasing_tactic
  · rename_i hs hi
    have := List.sizeOf_lt_of_mem hs
    have := Suffix.sizeOf_lt_of_mem hi
    simp only [Expr.reference.sizeOf_spec]
    omega

namespace Expr

/-- The precedence of an expression that is binary. -/
def precedence? : Expr → Option Nat
  | .binary _ op _ => some op.precedence
  | _ => none

/-- Whether an expression is a negation. -/
def isNegation : Expr → Bool
  | .negation .. => true
  | _ => false

/-- Whether an expression is the constant null. -/
def isNull : Expr → Bool
  | .literal _ .null => true
  | _ => false

end Expr

namespace Expr

/-- The expressions that stand in an expression as elements of a list, bounds of a range, arguments of a
method or indexes. -/
def items : Expr → List Expr
  | .list _ es => es
  | .range _ first last => [first, last]
  | .reference _ _ _ ss => ss.flatMap Suffix.items
  | _ => []

/-- Whether the right operand of an expression is no binary expression of the same precedence. -/
def GroupsLeft : Expr → Prop
  | .binary _ op rhs => rhs.precedence? ≠ some op.precedence
  | _ => True

/-- Whether no negation stands in an expression as an element, bound, argument or index. -/
def HasPlainItems (e : Expr) : Prop :=
  ∀ i ∈ e.items, i.isNegation = false

/-- Whether an expression is no text between double quotes. -/
def IsNoTemplate : Expr → Prop
  | .text _ .double _ => False
  | _ => True

/-- Whether operators of one precedence associate to the left throughout an expression. -/
def LeftGrouped (e : Expr) : Prop :=
  e.Everywhere GroupsLeft

/-- Whether negations stand throughout an expression only as operands, or as the whole of it. -/
def PlainItems (e : Expr) : Prop :=
  e.Everywhere HasPlainItems

/-- Whether an expression is no negation and holds none as an element, bound, argument or index. -/
def IsPlainItem (e : Expr) : Prop :=
  e.isNegation = false ∧ e.PlainItems

theorem plainItems_list {place : Place} {es : List Expr} :
    (Expr.list place es).PlainItems ↔ ∀ e ∈ es, e.IsPlainItem := by
  simp only [PlainItems, Everywhere, exprsEverywhere_iff, HasPlainItems, items, IsPlainItem]
  grind

theorem plainItems_range {place : Place} {first last : Expr} :
    (Expr.range place first last).PlainItems ↔ first.IsPlainItem ∧ last.IsPlainItem := by
  simp only [PlainItems, Everywhere, HasPlainItems, items, IsPlainItem, List.forall_mem_cons]
  grind

theorem plainItems_reference {place : Place} {x : String} {quiet : Bool} {ss : List Suffix} :
    (Expr.reference place x quiet ss).PlainItems ↔ ∀ s ∈ ss, ∀ i ∈ s.items, i.IsPlainItem := by
  simp only [PlainItems, Everywhere, suffixesEverywhere_iff, HasPlainItems, items, List.mem_flatMap,
    IsPlainItem]
  grind

/-- Whether an expression holds no text between double quotes. -/
def WithoutTemplates (e : Expr) : Prop :=
  e.Everywhere IsNoTemplate

end Expr

/-- Whether a text can be read as a name. -/
def IsName (x : String) : Prop :=
  ∃ c cs, x.toList = c :: cs ∧ isLetter c = true ∧ ∀ d ∈ cs, isNameChar d = true

theorem isName_ofList {c : Char} {cs : List Char} (hc : isLetter c = true)
    (hcs : cs.all isNameChar = true) : IsName (String.ofList (c :: cs)) :=
  ⟨c, cs, String.toList_ofList, hc, List.all_eq_true.1 hcs⟩

namespace Expr

/-- Whether an expression can be an element, a bound or an index: it is written without parentheses and
is not null. -/
def IsItem (e : Expr) : Prop :=
  e.isBinary = false ∧ e.isNull = false

end Expr

/-- What reading makes sure of in a suffix. -/
def Suffix.IsWritable : Suffix → Prop
  | .member m => IsName m
  | .method m args => IsName m ∧ ∀ a ∈ args, a.isBinary = false
  | .index key => key.IsItem

namespace Expr

/-- What reading makes sure of in an expression: the characters of a text, the range of a number, the form
of names, and where null and expressions with operators may stand. -/
def IsWritable : Expr → Prop
  | .literal _ (.int n) => Number.isWord n = true
  | .literal _ _ => True
  | .binary lhs _ rhs => lhs.isNull = false ∧ rhs.isNull = false
  | .negation _ e => e.isNull = false
  | .text _ .single nodes =>
    ∃ place s, nodes = [.text place s] ∧ ∀ c ∈ s.toList, c ≠ '\'' ∧ c ≠ '\\' ∧ c ≠ '\r'
  | .text _ .double _ => True
  | .list _ es => ∀ e ∈ es, e.IsItem
  | .range _ first last => first.IsItem ∧ last.IsItem
  | .reference _ x quiet ss => IsName x ∧ quiet = false ∧ ∀ s ∈ ss, s.IsWritable

end Expr

end Stencil
