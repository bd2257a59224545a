import Stencil.Proofs.ReadBack
import Stencil.Proofs.Writable

/-!
# The source text of an expression and reading are inverse

Reading groups operators of one precedence to the left. An expression with operators grouped to the right
has the text of `Expr.regroup`, which groups them to the left, and that is what reading makes of the text.
So the text of an expression is read as the expression exactly when its operators are grouped to the left
and it holds no negation as an element, bound, argument or index: `source_reads_back_iff`.
-/

namespace Stencil

open Stencil.Text

/-- The expression of two operands that are grouped to the left, with its operators grouped to the left. -/
def Expr.attach (lhs : Expr) (op : Operator) : Expr → Expr
  | .binary b inner c =>
    if inner.precedence = op.precedence then .binary (attach lhs op b) inner c
    else .binary lhs op (.binary b inner c)
  | rhs => .binary lhs op rhs

mutual

/-- An expression with all operators of one precedence grouped to the left. -/
def Expr.regroup : Expr → Expr
  | .literal place v => .literal place v
  | .binary lhs op rhs => Expr.attach lhs.regroup op rhs.regroup
  | .negation place e => .negation place e.regroup
  | .text place quote nodes => .text place quote nodes
  | .list place es => .list place (exprsRegroup es)
  | .range place first last => .range place first.regroup last.regroup
  | .reference place x quiet ss => .reference place x quiet (suffixesRegroup ss)

/-- Expressions with their operators grouped to the left. -/
def exprsRegroup : List Expr → List Expr
  | [] => []
  | e :: es => e.regroup :: exprsRegroup es

/-- A suffix with operators grouped to the left. -/
def Suffix.regroup : Suffix → Suffix
  | .member m => .member m
  | .method m args => .method m (exprsRegroup args)
  | .index key => .index key.regroup

/-- Suffixes with operators grouped to the left. -/
def suffixesRegroup : List Suffix → List Suffix
  | [] => []
  | s :: ss => s.regroup :: suffixesRegroup ss

end

theorem exprsRegroup_eq_map (es : List Expr) : exprsRegroup es = es.map Expr.regroup := by
  induction es with
  | nil => rfl
  | cons e es ih => rw [exprsRegroup, ih, List.map_cons]

theorem suffixesRegroup_eq_map (ss : List Suffix) : suffixesRegroup ss = ss.map Suffix.regroup := by
  induction ss with
  | nil => rfl
  | cons s ss ih => rw [suffixesRegroup, ih, List.map_cons]

theorem Suffix.items_regroup (s : Suffix) : s.regroup.items = s.items.map Expr.regroup := by
  cases s with
  | member m => rfl
  | method m args => exact exprsRegroup_eq_map args
  | index key => rfl

theorem Suffix.items_bare (s : Suffix) : s.bare.items = s.items.map Expr.bare := by
  cases s with
  | member m => rfl
  | method m args => exact exprsBare_eq_map args
  | index key => rfl

namespace Expr

variable {lhs rhs t : Expr} {op : Operator}

theorem attach_cases (lhs : Expr) (op : Operator) (rhs : Expr) :
    (∃ b inner c, rhs = .binary b inner c ∧ inner.precedence = op.precedence ∧
      attach lhs op rhs = .binary (attach lhs op b) inner c) ∨
    (rhs.precedence? ≠ some op.precedence ∧ attach lhs op rhs = .binary lhs op rhs) := by
  cases rhs with
  | binary b inner c =>
    by_cases h : inner.precedence = op.precedence
    · exact .inl ⟨b, inner, c, rfl, h, by rw [attach, if_pos h]⟩
    · exact .inr ⟨fun he => h (Option.some.inj he), by rw [attach, if_neg h]⟩
  | _ => exact .inr ⟨nofun, rfl⟩

/-- The top of attached operands binds as tightly as the operator between them. -/
theorem precedence?_attach : (attach lhs op rhs).precedence? = some op.precedence := by
  obtain ⟨b, inner, c, rfl, h, hattach⟩ | ⟨-, hattach⟩ := attach_cases lhs op rhs
  · rw [hattach, precedence?, h]
  · rw [hattach, precedence?]

theorem leftGrouped_attach (hl : lhs.LeftGrouped) : ∀ {rhs : Expr}, rhs.LeftGrouped →
    (attach lhs op rhs).LeftGrouped
  | .binary b inner c, hr => by
    obtain ⟨hgroup, hb, hc⟩ := hr
    by_cases h : inner.precedence = op.precedence
    · rw [attach, if_pos h]
      exact ⟨hgroup, leftGrouped_attach hl hb, hc⟩
    · rw [attach, if_neg h]
      exact ⟨fun he => h (Option.some.inj he), hl, hgroup, hb, hc⟩
  | .literal .., hr | .negation .., hr | .text .., hr | .list .., hr | .range .., hr
  | .reference .., hr => ⟨nofun, hl, hr⟩

theorem needsParens_eq_false_of_precedence? (h : t.precedence? = some op.precedence) :
    needsParens op t = false := by
  cases t with
  | binary b inner c =>
    have : inner.precedence = op.precedence := Option.some.inj h
    simp [needsParens, this]
  | _ => rfl

theorem needsParens_congr {op' : Operator} (h : op'.precedence = op.precedence) :
    needsParens op' t = needsParens op t := by
  cases t with
  | binary b inner c => rw [needsParens, needsParens, h]
  | _ => rfl

theorem source_attach (lhs : Expr) (op : Operator) : ∀ rhs : Expr,
    (attach lhs op rhs).source = (Expr.binary lhs op rhs).source
  | .binary b inner c => by
    by_cases h : inner.precedence = op.precedence
    · have hattach : needsParens inner (attach lhs op b) = false :=
        needsParens_eq_false_of_precedence? (precedence?_attach.trans (congrArg some h.symm))
      have hright : needsParens op (.binary b inner c) = false :=
        needsParens_eq_false_of_precedence? (congrArg some h)
      rw [attach, if_pos h, source, hattach, source_attach lhs op b, source, source, hright, source,
        needsParens_congr (t := b) h]
      simp [inParens, String.append_assoc]
    · rw [attach, if_neg h]
  | .literal .. | .negation .. | .text .. | .list .. | .range .. | .reference .. => rfl

theorem leftGrouped_regroup (t : Expr) : t.regroup.LeftGrouped := by
  induction t using Expr.induction with
  | literal place v => trivial
  | binary lhs op rhs ihl ihr => exact leftGrouped_attach ihl ihr
  | negation place e ih => exact ⟨trivial, ih⟩
  | text place quote nodes => trivial
  | list place es ih =>
    refine ⟨trivial, exprsEverywhere_iff.2 ?_⟩
    rw [exprsRegroup_eq_map]
    exact List.forall_mem_map.2 ih
  | range place first last ihf ihl => exact ⟨trivial, ihf, ihl⟩
  | reference place x quiet ss ih =>
    refine ⟨trivial, suffixesEverywhere_iff.2 ?_⟩
    rw [suffixesRegroup_eq_map]
    refine List.forall_mem_map.2 fun s hs => ?_
    rw [s.items_regroup]
    exact List.forall_mem_map.2 (ih s hs)

theorem precedence?_regroup (t : Expr) : t.regroup.precedence? = t.precedence? := by
  cases t with
  | binary lhs op rhs => exact precedence?_attach
  | _ => rfl

theorem needsParens_eq (op : Operator) (t : Expr) :
    needsParens op t = t.precedence?.any (· < op.precedence) := by
  cases t <;> rfl

theorem isBinary_eq (t : Expr) : t.isBinary = t.precedence?.isSome := by
  cases t <;> rfl

theorem isBinary_regroup (t : Expr) : t.regroup.isBinary = t.isBinary := by
  rw [isBinary_eq, isBinary_eq, precedence?_regroup]

theorem isNull_attach : (attach lhs op rhs).isNull = false := by
  obtain ⟨b, inner, c, rfl, h, hattach⟩ | ⟨-, hattach⟩ := attach_cases lhs op rhs <;> rw [hattach] <;> rfl

theorem isNull_regroup (t : Expr) : t.regroup.isNull = t.isNull := by
  cases t with
  | binary lhs op rhs => exact isNull_attach
  | _ => rfl

theorem sources_eq_map (es : List Expr) : sources es = es.map source := by
  induction es with
  | nil => rfl
  | cons e es ih => rw [sources, ih, List.map_cons]

/-- Grouping the operators to the left leaves the text as it is. -/
theorem source_regroup (t : Expr) : t.regroup.source = t.source := by
  have hsources (es : List Expr) (h : ∀ e ∈ es, e.regroup.source = e.source) :
      sources (exprsRegroup es) = sources es := by
    rw [sources_eq_map, sources_eq_map, exprsRegroup_eq_map, List.map_map]
    exact List.map_congr_left h
  induction t using Expr.induction with
  | literal place v => rfl
  | binary lhs op rhs ihl ihr =>
    rw [regroup, source_attach, source, source, ihl, ihr, needsParens_eq, needsParens_eq,
      precedence?_regroup, precedence?_regroup, ← needsParens_eq, ← needsParens_eq]
  | negation place e ih => rw [regroup, source, source, ih, isBinary_regroup]
  | text place quote nodes => rfl
  | list place es ih => rw [regroup, source, source, hsources es ih]
  | range place first last ihf ihl => rw [regroup, source, source, ihf, ihl]
  | reference place x quiet ss ih =>
    have hsuffixes : suffixesSource (suffixesRegroup ss) = suffixesSource ss := by
      induction ss with
      | nil => rfl
      | cons s ss ihss =>
        have hs : s.regroup.source = s.source := by
          have hitems := ih s List.mem_cons_self
          cases s with
          | member m => rfl
          | method m args => rw [Suffix.regroup, Suffix.source, Suffix.source, hsources args hitems]
          | index key => rw [Suffix.regroup, Suffix.source, Suffix.source, hitems key List.mem_cons_self]
        rw [suffixesRegroup, suffixesSource, suffixesSource, hs,
          ihss fun s hs => ih s (List.mem_cons_of_mem _ hs)]
    rw [regroup, source, source, hsuffixes]

/-- Attached operands can be written when the operands can. -/
theorem made_attach (hl : lhs.Made) (hlnull : lhs.isNull = false) : ∀ {rhs : Expr}, rhs.Made →
    rhs.isNull = false → (attach lhs op rhs).Made
  | .binary b inner c, hr, hrnull => by
    obtain ⟨⟨hbnull, hcnull⟩, hb, hc⟩ := id hr
    by_cases h : inner.precedence = op.precedence
    · rw [attach, if_pos h]
      exact ⟨⟨isNull_attach, hcnull⟩, made_attach hl hlnull hb hbnull, hc⟩
    · rw [attach, if_neg h]
      exact ⟨⟨hlnull, rfl⟩, hl, hr⟩
  | .literal .., hr, hrnull | .negation .., hr, hrnull | .text .., hr, hrnull | .list .., hr, hrnull
  | .range .., hr, hrnull | .reference .., hr, hrnull => ⟨⟨hlnull, hrnull⟩, hl, hr⟩

theorem withoutTemplates_attach (hl : lhs.WithoutTemplates) : ∀ {rhs : Expr}, rhs.WithoutTemplates →
    (attach lhs op rhs).WithoutTemplates
  | .binary b inner c, hr => by
    obtain ⟨-, hb, hc⟩ := id hr
    by_cases h : inner.precedence = op.precedence
    · rw [attach, if_pos h]
      exact ⟨trivial, withoutTemplates_attach hl hb, hc⟩
    · rw [attach, if_neg h]
      exact ⟨trivial, hl, hr⟩
  | .literal .., hr | .negation .., hr | .text .., hr | .list .., hr | .range .., hr
  | .reference .., hr => ⟨trivial, hl, hr⟩

theorem isItem_regroup {t : Expr} (h : t.IsItem) : t.regroup.IsItem :=
  ⟨(isBinary_regroup t).trans h.1, (isNull_regroup t).trans h.2⟩

theorem isWritable_regroup {s : Suffix} (h : s.IsWritable) : s.regroup.IsWritable := by
  cases s with
  | member m => exact h
  | method m args =>
    refine ⟨h.1, ?_⟩
    rw [exprsRegroup_eq_map]
    exact List.forall_mem_map.2 fun a ha => (isBinary_regroup a).trans (h.2 a ha)
  | index key => exact isItem_regroup h

/-- An expression that can be written can be written when its operators are grouped to the left. -/
theorem made_regroup {t : Expr} (ht : t.Made) : t.regroup.Made := by
  induction t using Expr.induction with
  | literal place v => exact ht
  | binary lhs op rhs ihl ihr =>
    exact made_attach (ihl ht.2.1) ((isNull_regroup lhs).trans ht.1.1) (ihr ht.2.2)
      ((isNull_regroup rhs).trans ht.1.2)
  | negation place e ih => exact ⟨(isNull_regroup e).trans ht.1, ih ht.2⟩
  | text place quote nodes => exact ht
  | list place es ih =>
    have hes := exprsEverywhere_iff.1 ht.2
    refine ⟨?_, exprsEverywhere_iff.2 ?_⟩
    · show ∀ e ∈ exprsRegroup es, e.IsItem
      rw [exprsRegroup_eq_map]
      exact List.forall_mem_map.2 fun e he => isItem_regroup (ht.1 e he)
    · rw [exprsRegroup_eq_map]
      exact List.forall_mem_map.2 fun e he => ih e he (hes e he)
  | range place first last ihf ihl =>
    exact ⟨⟨isItem_regroup ht.1.1, isItem_regroup ht.1.2⟩, ihf ht.2.1, ihl ht.2.2⟩
  | reference place x quiet ss ih =>
    obtain ⟨⟨hx, hquiet, hss⟩, hitems⟩ := ht
    have hitems := suffixesEverywhere_iff.1 hitems
    refine ⟨⟨hx, hquiet, ?_⟩, suffixesEverywhere_iff.2 ?_⟩ <;> rw [suffixesRegroup_eq_map]
    · exact List.forall_mem_map.2 fun s hs => isWritable_regroup (hss s hs)
    · refine List.forall_mem_map.2 fun s hs => ?_
      rw [s.items_regroup]
      exact List.forall_mem_map.2 fun i hi => ih s hs i hi (hitems s hs i hi)

theorem withoutTemplates_regroup {t : Expr} (ht : t.WithoutTemplates) : t.regroup.WithoutTemplates := by
  induction t using Expr.induction with
  | literal place v => exact ht
  | binary lhs op rhs ihl ihr => exact withoutTemplates_attach (ihl ht.2.1) (ihr ht.2.2)
  | negation place e ih => exact ⟨trivial, ih ht.2⟩
  | text place quote nodes => exact ht
  | list place es ih =>
    have hes := exprsEverywhere_iff.1 ht.2
    refine ⟨trivial, exprsEverywhere_iff.2 ?_⟩
    rw [exprsRegroup_eq_map]
    exact List.forall_mem_map.2 fun e he => ih e he (hes e he)
  | range place first last ihf ihl => exact ⟨trivial, ihf ht.2.1, ihl ht.2.2⟩
  | reference place x quiet ss ih =>
    have hitems := suffixesEverywhere_iff.1 ht.2
    refine ⟨trivial, suffixesEverywhere_iff.2 ?_⟩
    rw [suffixesRegroup_eq_map]
    refine List.forall_mem_map.2 fun s hs => ?_
    rw [s.items_regroup]
    exact List.forall_mem_map.2 fun i hi => ih s hs i hi (hitems s hs i hi)

theorem items_bare (t : Expr) : t.bare.items = t.items.map bare := by
  cases t with
  | list place es => exact exprsBare_eq_map es
  | reference place x quiet ss =>
    rw [bare, items, items, suffixesBare_eq_map, List.flatMap_map, List.map_flatMap]
    exact congrArg ss.flatMap (funext Suffix.items_bare)
  | _ => rfl

/-- What does not depend on places holds throughout an expression when it does without its places. -/
theorem everywhere_bare {P : Expr → Prop} (hP : ∀ e, P e.bare ↔ P e) (t : Expr) :
    t.bare.Everywhere P ↔ t.Everywhere P := by
  induction t using Expr.induction with
  | literal place v => exact hP (.literal place v)
  | binary lhs op rhs ihl ihr => exact and_congr (hP (.binary lhs op rhs)) (and_congr ihl ihr)
  | negation place e ih => exact and_congr (hP (.negation place e)) ih
  | text place quote nodes => exact hP (.text place quote nodes)
  | list place es ih =>
    refine and_congr (hP (.list place es)) ?_
    rw [exprsBare_eq_map, exprsEverywhere_iff, exprsEverywhere_iff, List.forall_mem_map]
    exact forall₂_congr ih
  | range place first last ihf ihl => exact and_congr (hP (.range place first last)) (and_congr ihf ihl)
  | reference place x quiet ss ih =>
    refine and_congr (hP (.reference place x quiet ss)) ?_
    rw [suffixesBare_eq_map, suffixesEverywhere_iff, suffixesEverywhere_iff, List.forall_mem_map]
    refine forall₂_congr fun s hs => ?_
    rw [s.items_bare, List.forall_mem_map]
    exact forall₂_congr (ih s hs)

theorem leftGrouped_bare (t : Expr) : t.bare.LeftGrouped ↔ t.LeftGrouped := by
  have hprecedence (e : Expr) : e.bare.precedence? = e.precedence? := by cases e <;> rfl
  refine everywhere_bare (fun e => ?_) t
  cases e with
  | binary lhs op rhs => rw [bare, GroupsLeft, GroupsLeft, hprecedence]
  | _ => exact Iff.rfl

theorem plainItems_bare (t : Expr) : t.bare.PlainItems ↔ t.PlainItems := by
  have hnegation (e : Expr) : e.bare.isNegation = e.isNegation := by cases e <;> rfl
  refine everywhere_bare (fun e => ?_) t
  rw [HasPlainItems, HasPlainItems, items_bare, List.forall_mem_map]
  simp only [hnegation]

/-- No carriage return stands in a name. -/
theorem return_not_mem_of_isName {x : String} (hx : IsName x) : '\r' ∉ x.toList := by
  obtain ⟨c, cs, hcs, hc, hall⟩ := hx
  rw [hcs]
  intro hr
  obtain rfl | hr := List.mem_cons.1 hr
  · exact absurd hc (by decide)
  · exact absurd (hall _ hr) (by decide)

theorem toList_suffixesSource (ss : List Suffix) :
    (suffixesSource ss).toList = ss.flatMap fun s => s.source.toList := by
  induction ss with
  | nil => rfl
  | cons s ss ih => rw [suffixesSource, String.toList_append, ih, List.flatMap_cons]

/-- No carriage return stands in the text of an expression that was read. -/
theorem return_not_mem_source {t : Expr} (ht : t.Made) (hd : t.WithoutTemplates) :
    '\r' ∉ t.source.toList := by
  have hparens (b : Bool) {s : String} (h : '\r' ∉ s.toList) : '\r' ∉ (inParens b s).toList := by
    cases b <;> simpa [inParens] using h
  have hsources (es : List Expr) (h : ∀ e ∈ es, '\r' ∉ e.source.toList) :
      '\r' ∉ (", ".intercalate (sources es)).toList := by
    cases es with
    | nil => simp [sources]
    | cons e es =>
      have := List.forall_mem_cons.1 h
      rw [toList_intercalate_sources]
      simpa [restText, this.1] using this.2
  induction t using Expr.induction with
  | literal place v => 
    rw [source]
    cases v with
    | null => decide
    | bool b => cases b <;> decide
    | int m =>
      have hdigits (n : Nat) : '\r' ∉ Nat.toDigits 10 n := fun hr =>
        absurd (isDigit_of_mem_toDigits hr) (by decide)
      cases m with
      | ofNat n =>
        show '\r' ∉ n.repr.toList
        rw [Nat.toList_repr]
        exact hdigits n
      | negSucc n => 
        show '\r' ∉ ("-" ++ (n + 1).repr).toList
        rw [String.toList_append, Nat.toList_repr]
        simpa using hdigits (n + 1)
  | binary lhs op rhs ihl ihr =>
    have hsymbol : '\r' ∉ op.symbol.toList := by cases op <;> decide
    simp [source, hparens _ (ihl ht.2.1 hd.2.1), hparens _ (ihr ht.2.2 hd.2.2), hsymbol]
  | negation place e ih => simp [source, hparens _ (ih ht.2 hd.2)]
  | text place quote nodes =>
    cases quote with
    | single =>
      obtain ⟨place', s, rfl, hs⟩ := ht
      have hreturn : '\r' ∉ s.toList := fun h => (hs _ h).2.2 rfl
      simpa [source, nodesSource, Node.source, Quote.char] using hreturn
    | double => exact hd.elim
  | list place es ih =>
    have hes := hsources es fun e he => ih e he (exprsEverywhere_iff.1 ht.2 e he) (exprsEverywhere_iff.1 hd.2 e he)
    rw [source, String.toList_append, String.toList_append]
    simpa using hes
  | range place first last ihf ihl =>
    simp [source, ihf ht.2.1 hd.2.1, ihl ht.2.2 hd.2.2]
  | reference place x quiet ss ih =>
    obtain ⟨⟨hx, rfl, hss⟩, hitems⟩ := ht
    have hitems {s : Suffix} (hs : s ∈ ss) : ∀ i ∈ s.items, '\r' ∉ i.source.toList := fun i hi =>
      ih s hs i hi (suffixesEverywhere_iff.1 hitems s hs i hi) (suffixesEverywhere_iff.1 hd.2 s hs i hi)
    have hsuffix {s : Suffix} (hs : s ∈ ss) : '\r' ∉ s.source.toList := by
      have hi := hitems hs
      have hw := hss s hs
      cases s with
      | member m => simpa [Suffix.source] using return_not_mem_of_isName hw
      | method m args =>
        have hargs := hsources args hi
        simp only [Suffix.source, String.toList_append, List.mem_append, hargs,
          return_not_mem_of_isName hw.1]
        decide
      | index key => simpa [Suffix.source] using hi key List.mem_cons_self
    have hsuffixes : '\r' ∉ (suffixesSource ss).toList := by
      rw [toList_suffixesSource, List.mem_flatMap]
      rintro ⟨s, hs, hr⟩
      exact hsuffix hs hr
    simp [source, return_not_mem_of_isName hx, hsuffixes]

end Expr

open Stencil.Expr

/-- The text of an expression that was read, with its operators grouped to the left, is read as that
expression, when no negation stands in it as an item, and is refused otherwise. -/
theorem read_source {t : Expr} (ht : t.Made) (hnull : t.isNull = false) (hd : t.WithoutTemplates)
    (hg : t.LeftGrouped) (resource : Option String) :
    (t.PlainItems ∧ ∃ t' s', Expr.read resource t.source = .ok (t', s') ∧ s'.pending = [] ∧
      t'.bare = t.bare) ∨
    (¬ t.PlainItems ∧ ∃ e, Expr.read resource t.source = .error e) := by
  have hpending : (Scanner.ofText t.source resource).pending = t.source.toList := by
    rw [Scanner.pending_ofText, unifyNewlines_of_no_return (return_not_mem_source ht hd)]
  have hoperands : ∀ u ∈ t.operands, u.ReadsBack Document.readInside := ((readsBack t ht hd hg).2 hnull).2
  have hread := reads_expr hg hoperands .endOfText (n := Document.fuelFor (Scanner.ofText t.source resource)) (p := t.source.toList)
    (by rw [Document.fuelFor, hpending]; omega) (by simpa using t.dropWhile_source [])
    (Scanner.ofText t.source resource) hpending
  rw [Expr.read]
  split at hread
  · rename_i t' s' hok
    rw [hok]
    exact .inl ⟨t.plainItems_iff_operands.2 hread.1, t', s', rfl, hread.2.2, hread.2.1⟩
  · rename_i e s' herror
    rw [herror]
    obtain ⟨u, hu, hne⟩ := hread
    exact .inr ⟨fun hplain => hne (t.plainItems_iff_operands.1 hplain u hu), _, rfl⟩
  · exact hread.elim

/-- The source text of an expression that was read from some text, and holds no template, is read to its end
as the same expression, exactly when operators of one precedence are grouped to the left throughout the
expression and no negation stands in it as an element of a list, bound of a range, index or argument of a
method. -/
theorem source_reads_back_iff {resource : Option String} {text : String} {t : Expr} {s : Scanner}
    (h : Expr.read resource text = .ok (t, s)) (hd : t.WithoutTemplates) (resource' : Option String) :
    (∃ t' s', Expr.read resource' t.source = .ok (t', s') ∧ s'.pending = [] ∧ t'.bare = t.bare) ↔
      t.LeftGrouped ∧ t.PlainItems := by
  obtain ⟨ht, hnull⟩ := made_of_read h
  constructor
  · rintro ⟨t', s', hread, -, hbare⟩
    rw [← source_regroup] at hread
    obtain ⟨hplain, t'', s'', hread', -, hbare'⟩ | ⟨-, e, herror⟩ :=
      read_source (made_regroup ht) ((isNull_regroup t).trans hnull) (withoutTemplates_regroup hd)
        (leftGrouped_regroup t) resource'
    · cases hread.symm.trans hread'
      have hsame : t.regroup.bare = t.bare := hbare'.symm.trans hbare
      rw [← leftGrouped_bare, ← plainItems_bare, ← hsame, leftGrouped_bare, plainItems_bare]
      exact ⟨leftGrouped_regroup t, hplain⟩
    · cases hread.symm.trans herror
  · rintro ⟨hg, hplain⟩
    obtain ⟨-, hread⟩ | ⟨hne, -⟩ := read_source ht hnull hd hg resource'
    · exact hread
    · exact absurd hplain hne

/-- An expression whose text is read back, and one whose text is read with other groups. -/
theorem source_reads_back_minus :
    let minus (a b : Expr) : Expr := .binary a .minus b
    let x (name : String) : Expr := .reference ⟨none, 1⟩ name false []
    let left := minus (minus (x "a") (x "b")) (x "c")
    let right := minus (x "a") (minus (x "b") (x "c"))
    (∃ s, Expr.read none "$a - $b - $c" = .ok (left, s)) ∧ left.WithoutTemplates ∧
      (∃ t' s', Expr.read none left.source = .ok (t', s') ∧ s'.pending = [] ∧ t'.bare = left.bare) ∧
    (∃ s, Expr.read none "$a - ($b - $c)" = .ok (right, s)) ∧ right.WithoutTemplates ∧
      ¬ ∃ t' s', Expr.read none right.source = .ok (t', s') ∧ s'.pending = [] ∧ t'.bare = right.bare := by
  intro minus x left right
  obtain ⟨s, hl⟩ : ∃ s, Expr.read none "$a - $b - $c" = .ok (left, s) := ⟨_, by rfl⟩
  obtain ⟨s', hr⟩ : ∃ s, Expr.read none "$a - ($b - $c)" = .ok (right, s) := ⟨_, by rfl⟩
  have hdl : left.WithoutTemplates := by
    simp [left, minus, x, WithoutTemplates, Everywhere, IsNoTemplate, suffixesEverywhere]
  have hdr : right.WithoutTemplates := by
    simp [right, minus, x, WithoutTemplates, Everywhere, IsNoTemplate, suffixesEverywhere]
  refine ⟨⟨s, hl⟩, hdl, (source_reads_back_iff hl hdl none).2 ⟨?_, ?_⟩, ⟨s', hr⟩, hdr, fun hback => ?_⟩
  · simp [left, minus, x, LeftGrouped, Everywhere, GroupsLeft, precedence?, suffixesEverywhere]
  · simp [left, minus, x, PlainItems, Everywhere, HasPlainItems, items, suffixesEverywhere]
  · exact ((source_reads_back_iff hr hdr none).1 hback).1.1 rfl

end Stencil
