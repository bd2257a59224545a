import Stencil.Proofs.CourseExpr

/-!
# Fuel does not change what is read

Fuel bounds how deep the readers of expressions call each other and has no part in what they read: a call
that does not run out of fuel ends as it does with any other fuel that it does not run out of. `Below`
compares two steps in this way, and `EndsIn` says what a step gives unless it runs out.
-/

namespace Stencil

open Stencil.Text

variable {σ α β : Type} {s t : σ}

/-- Whether a step ends as another one does, unless it runs out of fuel. -/
def Below (x y : EStateM ParseFailure σ α) : Prop :=
  ∀ s, (∃ t, x s = .error .exhausted t) ∨ x s = y s

/-- Whether a step from a state gives a result and a state, unless it runs out of fuel. -/
def EndsIn (x : EStateM ParseFailure σ α) (s : σ) (a : α) (t : σ) : Prop :=
  (∃ t', x s = .error .exhausted t') ∨ x s = .ok a t

namespace Below

variable {x y z : EStateM ParseFailure σ α}

theorem refl (x : EStateM ParseFailure σ α) : Below x x :=
  fun _ => .inr rfl

theorem trans (h : Below x y) (h' : Below y z) : Below x z := by
  intro s
  rcases h s with hx | hx
  · exact .inl hx
  · rw [hx]
    exact h' s

theorem exhausted : Below (throw .exhausted) x :=
  fun s => .inl ⟨s, rfl⟩

theorem bind {x y : EStateM ParseFailure σ β} {f g : β → EStateM ParseFailure σ α} (hx : Below x y)
    (hf : ∀ b, Below (f b) (g b)) : Below (x >>= f) (y >>= g) := by
  intro s
  show (∃ t, EStateM.bind x f s = .error .exhausted t) ∨ EStateM.bind x f s = EStateM.bind y g s
  rw [EStateM.bind, EStateM.bind]
  rcases hx s with ⟨t, hx⟩ | hx
  · rw [hx]
    exact .inl ⟨t, rfl⟩
  · rw [hx]
    cases y s with
    | ok b t => exact hf b t
    | error e t => exact .inr rfl

/-- The steps begin alike. -/
theorem after {x : EStateM ParseFailure σ β} {f g : β → EStateM ParseFailure σ α}
    (hf : ∀ b, Below (f b) (g b)) : Below (x >>= f) (x >>= g) :=
  .bind (.refl x) hf

theorem map {x y : EStateM ParseFailure σ β} {f : β → α} (hx : Below x y) : Below (f <$> x) (f <$> y) :=
  .bind (f := fun b => pure (f b)) (g := fun b => pure (f b)) hx fun _ => .refl _

theorem ite {c : Prop} [Decidable c] {x' y' : EStateM ParseFailure σ α} (h : Below x y) (h' : Below x' y') :
    Below (if c then x else x') (if c then y else y') := by
  split
  · exact h
  · exact h'

/-- A step that may be taken first does not matter. -/
theorem optional {c : Prop} [Decidable c] {x : EStateM ParseFailure σ Unit}
    {f g : Unit → EStateM ParseFailure σ α} (hf : Below (f ()) (g ())) :
    Below (if c then x >>= f else f ()) (if c then x >>= g else g ()) :=
  .ite (.after fun _ => hf) hf

theorem endsIn {a : α} (h : Below x y) (hy : y s = .ok a t) : EndsIn x s a t := by
  rcases h s with hx | hx
  · exact .inl hx
  · exact .inr (hx.trans hy)

/-- What a step gives, one that it is below gives too. -/
theorem ok {a : α} (h : Below x y) (hx : x s = .ok a t) : y s = .ok a t := by
  rcases h s with ⟨t', hx'⟩ | hx'
  · rw [hx] at hx'
    cases hx'
  · exact hx'.symm.trans hx

end Below

namespace EndsIn

theorem bind {x : EStateM ParseFailure σ β} {f : β → EStateM ParseFailure σ α} {b : β} {a : α} {u : σ}
    (hx : EndsIn x s b t) (hf : EndsIn (f b) t a u) : EndsIn (x >>= f) s a u := by
  show (∃ t', EStateM.bind x f s = .error .exhausted t') ∨ EStateM.bind x f s = .ok a u
  rw [EStateM.bind]
  rcases hx with ⟨t', hx⟩ | hx
  · rw [hx]
    exact .inl ⟨t', rfl⟩
  · rw [hx]
    exact hf

/-- A step that does not run out of fuel ends with what it gives. -/
theorem ok {x : EStateM ParseFailure σ α} {a : α} {Φ : α → σ → Prop} (h : EndsIn x s a t)
    (hsettles : Settles x s Φ) : x s = .ok a t := by
  rcases h with ⟨t', hx⟩ | hx
  · rw [Settles, hx] at hsettles
    exact hsettles.elim
  · exact hx

end EndsIn

namespace Scan

variable {readInner : ReadInner} {n m : Nat}

section Readers

/-! ### One call more

Each reader ends alike with one call more, if the readers that it calls do. -/

variable (ih : ∀ {α : Type} (c : Call α), Below (c.run readInner n) (c.run readInner (n + 1)))

include ih

theorem below_expr : Below (expr readInner (n + 1)) (expr readInner (n + 2)) := by
  rw [expr, expr]
  exact .bind (ih .unary) fun lhs => .after fun next => .bind (ih (.climb lhs next 1)) fun _ => .refl _

theorem below_climb (lhs : Expr) (next : Option Operator) (least : Nat) :
    Below (climb readInner (n + 1) lhs next least) (climb readInner (n + 2) lhs next least) := by
  cases next with
  | none => exact .refl _
  | some op =>
    rw [climb, climb]
    refine .ite (.refl _) (.bind (ih .unary) fun rhs => .after fun next => ?_)
    exact .bind (ih (.climbRight rhs next op.precedence)) fun p =>
      ih (.climb (.binary lhs op p.1) p.2 least)

theorem below_climbRight (rhs : Expr) (next : Option Operator) (bound : Nat) :
    Below (climbRight readInner (n + 1) rhs next bound) (climbRight readInner (n + 2) rhs next bound) := by
  cases next with
  | none => exact .refl _
  | some op =>
    rw [climbRight, climbRight]
    exact .ite (.refl _) (.bind (ih (.climb rhs (some op) op.precedence)) fun p =>
      ih (.climbRight p.1 p.2 bound))

theorem below_unary : Below (unary readInner (n + 1)) (unary readInner (n + 2)) := by
  rw [unary, unary]
  refine .after fun _ => .after fun c => ?_
  split
  · exact .after fun _ => .bind (ih .expr) fun _ => .refl _
  · exact .after fun _ => .after fun _ => .bind (ih .unary) fun _ => .refl _
  · exact ih (.primary false)

theorem below_primary (nullAllowed : Bool) :
    Below (primary readInner (n + 1) nullAllowed) (primary readInner (n + 2) nullAllowed) := by
  rw [primary, primary]
  refine .after fun _ => .after fun c => ?_
  dsimp only
  split
  · exact .after fun _ => .bind (ih .required) fun _ => .refl _
  · exact .refl _
  · exact .refl _
  · exact .refl _
  · exact .bind (ih .listOrRange) fun _ => .refl _
  · exact .ite (.refl _) (.ite (.bind (ih (.word nullAllowed)) fun _ => .refl _) (.refl _))
  · exact .refl _

theorem below_word (nullAllowed : Bool) :
    Below (word readInner (n + 1) nullAllowed) (word readInner (n + 2) nullAllowed) := by
  rw [word, word]
  refine .after fun w => .ite (.refl _) (.ite (.refl _) (.ite ?_ (.refl _)))
  exact .after fun _ => .map (ih .unary)

theorem below_listOrRange : Below (listOrRange readInner (n + 1)) (listOrRange readInner (n + 2)) := by
  rw [listOrRange, listOrRange]
  refine .after fun _ => .after fun _ => .ite (.refl _) (.bind (ih (.primary false)) fun first => ?_)
  refine .after fun _ => .ite ?_ (.bind (ih .elements) fun _ => .refl _)
  refine .after fun _ => .after fun _ => .optional (.after fun _ => ?_)
  exact .bind (ih (.primary false)) fun _ => .refl _

theorem below_elements : Below (elements readInner (n + 1)) (elements readInner (n + 2)) := by
  rw [elements, elements]
  exact .after fun _ => .ite (.after fun _ => .bind (ih (.primary false)) fun _ => .map (ih .elements))
    (.refl _)

theorem below_required : Below (required readInner (n + 1)) (required readInner (n + 2)) := by
  rw [required, required]
  refine .after fun _ => .optional (.after fun _ => ?_)
  exact .ite (.after fun _ => .bind (ih (.reference false)) fun _ => .refl _) (ih (.reference false))

theorem below_reference (quiet : Bool) :
    Below (reference readInner (n + 1) quiet) (reference readInner (n + 2) quiet) := by
  rw [reference, reference]
  exact .after fun _ => .after fun _ => .map (ih .suffixes)

theorem below_suffixes : Below (suffixes readInner (n + 1)) (suffixes readInner (n + 2)) := by
  rw [suffixes, suffixes]
  refine .after fun c => ?_
  split
  · refine .after fun _ => .after fun _ => .ite ?_ (.refl _)
    refine .after fun m => .after fun _ => .ite (.bind (.map (ih .arguments)) fun _ => ?_) ?_
    · exact .map (ih .suffixes)
    · exact .after fun _ => .map (ih .suffixes)
  · refine .after fun _ => .bind (ih (.primary false)) fun _ => .after fun _ => .optional ?_
    exact .after fun _ => .map (ih .suffixes)
  · exact .refl _

theorem below_arguments : Below (arguments readInner (n + 1)) (arguments readInner (n + 2)) := by
  rw [arguments, arguments]
  refine .after fun _ => .after fun _ => .ite (.refl _) (.bind (ih (.primary true)) fun _ => ?_)
  exact .bind (ih .moreArguments) fun _ => .refl _

theorem below_moreArguments :
    Below (moreArguments readInner (n + 1)) (moreArguments readInner (n + 2)) := by
  rw [moreArguments, moreArguments]
  exact .after fun _ => .ite (.after fun _ => .bind (ih (.primary true)) fun _ => .map (ih .moreArguments))
    (.refl _)

theorem below_callArguments :
    Below (callArguments readInner (n + 1)) (callArguments readInner (n + 2)) := by
  rw [callArguments, callArguments]
  refine .after fun _ => .after fun _ => .ite (.refl _) (.bind (ih (.primary false)) fun _ => ?_)
  exact .after fun _ => .optional (.map (ih .callArguments))

theorem below_parameters : Below (parameters (n + 1)) (parameters (n + 2)) := by
  rw [parameters, parameters]
  have hparameter : Below
      (do
        if (← peek) ≠ some '$' then fail .parameter
        skip
        let p ← name "Macro parameter name"
        return p :: (← parameters n))
      (do
        if (← peek) ≠ some '$' then fail .parameter
        skip
        let p ← name "Macro parameter name"
        return p :: (← parameters (n + 1))) :=
    .after fun _ => .optional (.after fun _ => .after fun _ => .map (ih .parameters))
  refine .after fun _ => .after fun _ => .ite (.refl _) (.after fun _ => .ite ?_ hparameter)
  exact .after fun _ => .after fun _ => hparameter

end Readers

/-- One call more does not change what is read. -/
theorem Call.below_succ (n : Nat) {α : Type} (c : Call α) :
    Below (c.run readInner n) (c.run readInner (n + 1)) := by
  induction n generalizing α with
  | zero =>
    cases c <;> exact .exhausted
  | succ n ih =>
    cases c with
    | expr => exact below_expr ih
    | climb lhs next least => exact below_climb ih lhs next least
    | climbRight rhs next bound => exact below_climbRight ih rhs next bound
    | unary => exact below_unary ih
    | primary nullAllowed => exact below_primary ih nullAllowed
    | word nullAllowed => exact below_word ih nullAllowed
    | listOrRange => exact below_listOrRange ih
    | elements => exact below_elements ih
    | required => exact below_required ih
    | reference quiet => exact below_reference ih quiet
    | suffixes => exact below_suffixes ih
    | arguments => exact below_arguments ih
    | moreArguments => exact below_moreArguments ih
    | callArguments => exact below_callArguments ih
    | parameters => exact below_parameters ih

theorem Call.below {α : Type} (c : Call α) (h : n ≤ m) :
    Below (c.run readInner n) (c.run readInner m) := by
  induction h with
  | refl => exact .refl _
  | step _ ih => exact ih.trans (c.below_succ _)

/-- What a call gives with some fuel, it gives with any other unless it runs out. -/
theorem Call.endsIn {α : Type} (c : Call α) {s t : Scanner} {a : α} (h : c.run readInner m s = .ok a t)
    (n : Nat) : EndsIn (c.run readInner n) s a t := by
  rcases Nat.le_total n m with hle | hle
  · exact (c.below hle).endsIn h
  · exact .inr ((c.below hle).ok h)

end Scan

end Stencil
