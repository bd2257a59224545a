import Mathlib.Data.List.Forall2
import Stencil.Proofs.Script

/-!
# Trees that differ in places

Two trees are alike when they are the same but for the places in them; a strict likeness lets no place
differ either. What a tree is, and the source text of an expression that shows all of it, does not depend
on places.
-/

namespace Stencil

/-- Places that need to be the same only where likeness is strict. -/
def Place.Like (strict : Bool) (p p' : Place) : Prop :=
  strict = true → p = p'

mutual

/-- Expressions that differ in places only. -/
inductive LikeExpr (strict : Bool) : Expr → Expr → Prop
  | literal {p p' v} (hp : p.Like strict p') : LikeExpr strict (.literal p v) (.literal p' v)
  | binary {a a' op b b'} (ha : LikeExpr strict a a') (hb : LikeExpr strict b b') :
      LikeExpr strict (.binary a op b) (.binary a' op b')
  | negation {p p' e e'} (hp : p.Like strict p') (he : LikeExpr strict e e') :
      LikeExpr strict (.negation p e) (.negation p' e')
  | text {p p' quote ns ns'} (hp : p.Like strict p') (hns : LikeNodes strict ns ns') :
      LikeExpr strict (.text p quote ns) (.text p' quote ns')
  | list {p p' es es'} (hp : p.Like strict p') (hes : LikeExprs strict es es') :
      LikeExpr strict (.list p es) (.list p' es')
  | range {p p' a a' b b'} (hp : p.Like strict p') (ha : LikeExpr strict a a')
      (hb : LikeExpr strict b b') : LikeExpr strict (.range p a b) (.range p' a' b')
  | reference {p p' x quiet ss ss'} (hp : p.Like strict p') (hss : LikeSuffixes strict ss ss') :
      LikeExpr strict (.reference p x quiet ss) (.reference p' x quiet ss')

/-- Rows of expressions that differ in places only. -/
inductive LikeExprs (strict : Bool) : List Expr → List Expr → Prop
  | nil : LikeExprs strict [] []
  | cons {e e' es es'} (he : LikeExpr strict e e') (hes : LikeExprs strict es es') :
      LikeExprs strict (e :: es) (e' :: es')

/-- Suffixes that differ in places only. -/
inductive LikeSuffix (strict : Bool) : Suffix → Suffix → Prop
  | member {name} : LikeSuffix strict (.member name) (.member name)
  | method {name es es'} (hes : LikeExprs strict es es') :
      LikeSuffix strict (.method name es) (.method name es')
  | index {e e'} (he : LikeExpr strict e e') : LikeSuffix strict (.index e) (.index e')

/-- Chains of suffixes that differ in places only. -/
inductive LikeSuffixes (strict : Bool) : List Suffix → List Suffix → Prop
  | nil : LikeSuffixes strict [] []
  | cons {s s' ss ss'} (hs : LikeSuffix strict s s') (hss : LikeSuffixes strict ss ss') :
      LikeSuffixes strict (s :: ss) (s' :: ss')

/-- Nodes that differ in places only. -/
inductive LikeNode (strict : Bool) : Node → Node → Prop
  | text {p p' s} (hp : p.Like strict p') : LikeNode strict (.text p s) (.text p' s)
  | comment {p p'} (hp : p.Like strict p') : LikeNode strict (.comment p) (.comment p')
  | sequence {p p' ns ns'} (hp : p.Like strict p') (hns : LikeNodes strict ns ns') :
      LikeNode strict (.sequence p ns) (.sequence p' ns')
  | output {e e'} (he : LikeExpr strict e e') : LikeNode strict (.output e) (.output e')
  | assign {x e e'} (he : LikeExpr strict e e') : LikeNode strict (.assign x e) (.assign x e')
  | choose {p p' e e' yes yes' no no'} (hp : p.Like strict p') (he : LikeExpr strict e e')
      (hyes : LikeNodes strict yes yes') (hno : LikeNode strict no no') :
      LikeNode strict (.choose p e yes no) (.choose p' e' yes' no')
  | foreach {p p' x e e' ns ns'} (hp : p.Like strict p') (he : LikeExpr strict e e')
      (hns : LikeNodes strict ns ns') : LikeNode strict (.foreach p x e ns) (.foreach p' x e' ns')
  | leave {p p'} (hp : p.Like strict p') : LikeNode strict (.leave p) (.leave p')
  | leaveScope {p p' e e'} (hp : p.Like strict p') (he : LikeExpr strict e e') :
      LikeNode strict (.leaveScope p e) (.leaveScope p' e')
  | define {p p' x ns ns'} (hp : p.Like strict p') (hns : LikeNodes strict ns ns') :
      LikeNode strict (.define p x ns) (.define p' x ns')
  | call {p p' name es es'} (hp : p.Like strict p') (hes : LikeExprs strict es es') :
      LikeNode strict (.call p name es) (.call p' name es')
  | callWith {p p' name es es' line ns ns'} (hp : p.Like strict p') (hes : LikeExprs strict es es')
      (hns : LikeNodes strict ns ns') :
      LikeNode strict (.callWith p name es line ns) (.callWith p' name es' line ns')
  | parse {p p' e e'} (hp : p.Like strict p') (he : LikeExpr strict e e') :
      LikeNode strict (.parse p e) (.parse p' e')
  | evaluate {p p' e e'} (hp : p.Like strict p') (he : LikeExpr strict e e') :
      LikeNode strict (.evaluate p e) (.evaluate p' e')

/-- Sequences of nodes that differ in places only. -/
inductive LikeNodes (strict : Bool) : List Node → List Node → Prop
  | nil : LikeNodes strict [] []
  | cons {n n' ns ns'} (hn : LikeNode strict n n') (hns : LikeNodes strict ns ns') :
      LikeNodes strict (n :: ns) (n' :: ns')

end

/-- Macros that differ in places only. -/
structure LikeMacro (strict : Bool) (m m' : MacroDef) : Prop where
  place : m.place.Like strict m'.place
  name : m.name = m'.name
  params : m.params = m'.params
  body : LikeNodes strict m.body m'.body

/-- Documents that differ in places only. -/
structure LikeDocument (strict : Bool) (d d' : Document) : Prop where
  nodes : LikeNodes strict d.nodes d'.nodes
  macros : List.Forall₂ (LikeMacro strict) d.macros d'.macros

variable {strict : Bool}

theorem Place.Like.refl (p : Place) : p.Like strict p := fun _ => rfl

/-! ### Every tree is like itself -/

mutual

theorem LikeExpr.refl : (e : Expr) → LikeExpr strict e e
  | .literal p _ => .literal (.refl p)
  | .binary a _ b => .binary (.refl a) (.refl b)
  | .negation p e => .negation (.refl p) (.refl e)
  | .text p _ ns => .text (.refl p) (.refl ns)
  | .list p es => .list (.refl p) (.refl es)
  | .range p a b => .range (.refl p) (.refl a) (.refl b)
  | .reference p _ _ ss => .reference (.refl p) (.refl ss)

theorem LikeExprs.refl : (es : List Expr) → LikeExprs strict es es
  | [] => .nil
  | e :: es => .cons (.refl e) (.refl es)

theorem LikeSuffix.refl : (s : Suffix) → LikeSuffix strict s s
  | .member _ => .member
  | .method _ es => .method (.refl es)
  | .index e => .index (.refl e)

theorem LikeSuffixes.refl : (ss : List Suffix) → LikeSuffixes strict ss ss
  | [] => .nil
  | s :: ss => .cons (.refl s) (.refl ss)

theorem LikeNode.refl : (n : Node) → LikeNode strict n n
  | .text p _ => .text (.refl p)
  | .comment p => .comment (.refl p)
  | .sequence p ns => .sequence (.refl p) (.refl ns)
  | .output e => .output (.refl e)
  | .assign _ e => .assign (.refl e)
  | .choose p e yes no => .choose (.refl p) (.refl e) (.refl yes) (.refl no)
  | .foreach p _ e ns => .foreach (.refl p) (.refl e) (.refl ns)
  | .leave p => .leave (.refl p)
  | .leaveScope p e => .leaveScope (.refl p) (.refl e)
  | .define p _ ns => .define (.refl p) (.refl ns)
  | .call p _ es => .call (.refl p) (.refl es)
  | .callWith p _ es _ ns => .callWith (.refl p) (.refl es) (.refl ns)
  | .parse p e => .parse (.refl p) (.refl e)
  | .evaluate p e => .evaluate (.refl p) (.refl e)

theorem LikeNodes.refl : (ns : List Node) → LikeNodes strict ns ns
  | [] => .nil
  | n :: ns => .cons (.refl n) (.refl ns)

end

theorem LikeMacro.refl (m : MacroDef) : LikeMacro strict m m :=
  ⟨.refl _, rfl, rfl, .refl _⟩

theorem LikeDocument.refl (d : Document) : LikeDocument strict d d :=
  ⟨.refl _, List.forall₂_same.2 fun m _ => .refl m⟩

/-! ### Strictly alike trees are the same -/

mutual

theorem LikeExpr.eq {e e' : Expr} : LikeExpr true e e' → e = e'
  | .literal hp => by rw [hp rfl]
  | .binary ha hb => by rw [ha.eq, hb.eq]
  | .negation hp he => by rw [hp rfl, he.eq]
  | .text hp hns => by rw [hp rfl, hns.eq]
  | .list hp hes => by rw [hp rfl, hes.eq]
  | .range hp ha hb => by rw [hp rfl, ha.eq, hb.eq]
  | .reference hp hss => by rw [hp rfl, hss.eq]

theorem LikeExprs.eq {es es' : List Expr} : LikeExprs true es es' → es = es'
  | .nil => rfl
  | .cons he hes => by rw [he.eq, hes.eq]

theorem LikeSuffix.eq {s s' : Suffix} : LikeSuffix true s s' → s = s'
  | .member => rfl
  | .method hes => by rw [hes.eq]
  | .index he => by rw [he.eq]

theorem LikeSuffixes.eq {ss ss' : List Suffix} : LikeSuffixes true ss ss' → ss = ss'
  | .nil => rfl
  | .cons hs hss => by rw [hs.eq, hss.eq]

theorem LikeNode.eq {n n' : Node} : LikeNode true n n' → n = n'
  | .text hp | .comment hp | .leave hp => by rw [hp rfl]
  | .sequence hp hns | .define hp hns => by rw [hp rfl, hns.eq]
  | .output he | .assign he => by rw [he.eq]
  | .choose hp he hyes hno => by rw [hp rfl, he.eq, hyes.eq, hno.eq]
  | .foreach hp he hns => by rw [hp rfl, he.eq, hns.eq]
  | .leaveScope hp he | .parse hp he | .evaluate hp he => by rw [hp rfl, he.eq]
  | .call hp hes => by rw [hp rfl, hes.eq]
  | .callWith hp hes hns => by rw [hp rfl, hes.eq, hns.eq]

theorem LikeNodes.eq {ns ns' : List Node} : LikeNodes true ns ns' → ns = ns'
  | .nil => rfl
  | .cons hn hns => by rw [hn.eq, hns.eq]

end

theorem LikeMacro.eq {m m' : MacroDef} (h : LikeMacro true m m') : m = m' := by
  obtain ⟨place, name, params, body⟩ := m
  obtain ⟨hp, hn, hps, hb⟩ := h
  obtain rfl := hp rfl
  obtain rfl := hn
  obtain rfl := hps
  obtain rfl := hb.eq
  rfl

/-- What is said of equal things holds of things that are alike where likeness is strict. -/
theorem LikeExpr.eq_of_strict {e e' : Expr} (h : LikeExpr strict e e') (hs : strict = true) : e = e' := by
  subst hs
  exact h.eq

theorem LikeSuffixes.eq_of_strict {ss ss' : List Suffix} (h : LikeSuffixes strict ss ss')
    (hs : strict = true) : ss = ss' := by
  subst hs
  exact h.eq

/-! ### What does not depend on places -/

theorem LikeExpr.place : {e e' : Expr} → LikeExpr strict e e' → e.place.Like strict e'.place
  | _, _, .literal hp | _, _, .negation hp _ | _, _, .text hp _ | _, _, .list hp _
  | _, _, .range hp _ _ | _, _, .reference hp _ => hp
  | _, _, .binary ha _ => ha.place

theorem LikeExpr.isQuiet_eq {e e' : Expr} (h : LikeExpr strict e e') : e.isQuiet = e'.isQuiet := by
  cases h <;> rfl

theorem LikeExpr.isBinary_eq {e e' : Expr} (h : LikeExpr strict e e') : e.isBinary = e'.isBinary := by
  cases h <;> rfl

theorem LikeExpr.needsParens_eq {e e' : Expr} (h : LikeExpr strict e e') (op : Operator) :
    needsParens op e = needsParens op e' := by
  cases h <;> rfl

theorem LikeExprs.length_eq {es es' : List Expr} (h : LikeExprs strict es es') :
    es.length = es'.length := by
  induction es generalizing es' with
  | nil =>
    cases h
    rfl
  | cons e es ih =>
    cases h with
    | cons he hes => rw [List.length_cons, List.length_cons, ih hes]

theorem LikeSuffixes.isEmpty_eq {ss ss' : List Suffix} (h : LikeSuffixes strict ss ss') :
    ss.isEmpty = ss'.isEmpty := by
  cases h <;> rfl

theorem LikeSuffixes.append {ss ss' ts ts' : List Suffix} (h : LikeSuffixes strict ss ss')
    (ht : LikeSuffixes strict ts ts') : LikeSuffixes strict (ss ++ ts) (ss' ++ ts') := by
  induction ss generalizing ss' with
  | nil =>
    cases h
    exact ht
  | cons s ss ih =>
    cases h with
    | cons hs hss => exact .cons hs (ih hss)

mutual

/-- The source text of an expression is the same wherever it stands, if it shows all of it. -/
theorem LikeExpr.source_eq {e e' : Expr} (hs : e.isShown = true) :
    LikeExpr strict e e' → e.source = e'.source
  | .literal _ => by rw [Expr.source, Expr.source]
  | .binary ha hb => by
    simp only [Expr.isShown, Bool.and_eq_true] at hs
    rw [Expr.source, Expr.source, ha.source_eq hs.1, hb.source_eq hs.2, ha.needsParens_eq,
      hb.needsParens_eq]
  | .negation _ he => by
    rw [Expr.isShown] at hs
    rw [Expr.source, Expr.source, he.source_eq hs, he.isBinary_eq]
  | .text _ hns => by
    rw [Expr.isShown] at hs
    rw [Expr.source, Expr.source, hns.source_eq hs]
  | .list _ hes => by
    rw [Expr.isShown] at hs
    rw [Expr.source, Expr.source, hes.sources_eq hs]
  | .range _ ha hb => by
    simp only [Expr.isShown, Bool.and_eq_true] at hs
    rw [Expr.source, Expr.source, ha.source_eq hs.1, hb.source_eq hs.2]
  | .reference _ hss => by
    rw [Expr.isShown] at hs
    rw [Expr.source, Expr.source, hss.source_eq hs]

theorem LikeExprs.sources_eq {es es' : List Expr} (hs : exprsShown es = true) :
    LikeExprs strict es es' → sources es = sources es'
  | .nil => rfl
  | .cons he hes => by
    simp only [exprsShown, Bool.and_eq_true] at hs
    rw [sources, sources, he.source_eq hs.1, hes.sources_eq hs.2]

theorem LikeSuffix.source_eq {s s' : Suffix} (hs : s.isShown = true) :
    LikeSuffix strict s s' → s.source = s'.source
  | .member => rfl
  | .method hes => by
    rw [Suffix.isShown] at hs
    rw [Suffix.source, Suffix.source, hes.sources_eq hs]
  | .index he => by
    rw [Suffix.isShown] at hs
    rw [Suffix.source, Suffix.source, he.source_eq hs]

theorem LikeSuffixes.source_eq {ss ss' : List Suffix} (hs : suffixesShown ss = true) :
    LikeSuffixes strict ss ss' → suffixesSource ss = suffixesSource ss'
  | .nil => rfl
  | .cons hs' hss => by
    simp only [suffixesShown, Bool.and_eq_true] at hs
    rw [suffixesSource, suffixesSource, hs'.source_eq hs.1, hss.source_eq hs.2]

theorem LikeNode.source_eq {n n' : Node} (hs : n.isShown = true) :
    LikeNode strict n n' → n.source = n'.source
  | .text _ => by rw [Node.source, Node.source]
  | .output he => by
    rw [Node.isShown] at hs
    rw [Node.source, Node.source, he.source_eq hs]

theorem LikeNodes.source_eq {ns ns' : List Node} (hs : areShown ns = true) :
    LikeNodes strict ns ns' → nodesSource ns = nodesSource ns'
  | .nil => rfl
  | .cons hn hns => by
    simp only [areShown, Bool.and_eq_true] at hs
    rw [nodesSource, nodesSource, hn.source_eq hs.1, hns.source_eq hs.2]

end

/-- The macro of a name is alike in registries that are alike. -/
theorem likeMacro_find {ms ms' : List MacroDef} (h : List.Forall₂ (LikeMacro strict) ms ms')
    (name : String) :
    Option.Rel (LikeMacro strict) (findMacro? ms name) (findMacro? ms' name) := by
  induction h with
  | nil => exact .none
  | @cons m m' _ _ hm _ ih =>
    rw [findMacro?, findMacro?, List.find?_cons, List.find?_cons, hm.name]
    cases m'.name == name with
    | true => exact .some hm
    | false => exact ih

end Stencil
