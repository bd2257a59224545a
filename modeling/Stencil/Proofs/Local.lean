import Stencil.Proofs.ReadFuel

/-!
# Text that a step does not reach

A step of reading looks at the characters that it takes and at the one after them, and at no text behind
that. `Scan.Local` says so: where more text stands behind the current character at the end, the step ends
alike with any other text in its place, or with none. All readers of expressions are local.
-/

namespace Stencil

open Stencil.Text

namespace Scanner

variable {s t : Scanner} {more : List Char}

/-- A scanner with more text behind what it has. -/
def followedBy (s : Scanner) (more : List Char) : Scanner :=
  { s with rest := s.rest ++ more }

theorem rest_advance (s : Scanner) : s.advance.rest <:+ s.rest := by
  obtain ⟨resource, current, slot, rest, line⟩ := s
  rcases current with _ | c
  · exact List.suffix_refl _
  · rcases slot with _ | d
    · cases rest with
      | nil => exact List.suffix_refl _
      | cons e rest => exact List.suffix_cons e rest
    · exact List.suffix_refl _

theorem rest_advanceBy (k : Nat) (s : Scanner) : (s.advanceBy k).rest <:+ s.rest := by
  induction k generalizing s with
  | zero => exact List.suffix_refl _
  | succ k ih => exact (ih s.advance).trans s.rest_advance

/-- The current character is the first one that is pending. -/
theorem pending_eq (s : Scanner) : s.pending = s.current.toList ++ s.advance.pending := by
  rw [pending_advance, current_eq]
  cases s.pending <;> rfl

/-- Whether a scanner has a character and has not seen the end of the text. -/
def Inside (s : Scanner) : Prop :=
  s.current ≠ none ∧ s.slot ≠ some none

/-- Whether a scanner has looked at nothing of the text behind it, and not at the end if there is none. -/
def Before (more : List Char) (s : Scanner) : Prop :=
  more.length ≤ s.rest.length ∧ (more = [] → s.Inside)

theorem Before.of_ne (hmore : more ≠ []) (h : more.length ≤ s.rest.length) : s.Before more :=
  ⟨h, fun hnil => absurd hnil hmore⟩

theorem Inside.of_advance (h : s.advance.Inside) : s.Inside := by
  obtain ⟨resource, current, slot, rest, line⟩ := s
  rcases current with _ | c
  · exact absurd rfl h.1
  · rcases slot with _ | _ | d
    · exact ⟨nofun, nofun⟩
    · exact absurd rfl h.1
    · exact ⟨nofun, nofun⟩

/-- A character after another one was taken: nothing is put back then. -/
theorem inside_advance (h : s.advance.current ≠ none) : s.advance.Inside := by
  refine ⟨h, ?_⟩
  obtain ⟨resource, current, slot, rest, line⟩ := s
  rcases current with _ | c
  · exact absurd rfl h
  · rcases slot with _ | d
    · cases rest <;> exact nofun
    · exact nofun

theorem Inside.of_advanceBy {k : Nat} (h : (s.advanceBy k).Inside) : s.Inside := by
  induction k generalizing s with
  | zero => exact h
  | succ k ih => exact (ih h).of_advance

theorem Before.of_advanceBy {k : Nat} (h : (s.advanceBy k).Before more) : s.Before more :=
  ⟨h.1.trans (rest_advanceBy k s).length_le, fun hmore => (h.2 hmore).of_advanceBy⟩

/-- Taking a character stays before the text behind, if that is still to be taken. -/
theorem advance_followedBy (h : (s.followedBy more).advance.Before more) (other : List Char) :
    (s.followedBy other).advance = s.advance.followedBy other := by
  obtain ⟨resource, current, slot, rest, line⟩ := s
  rcases current with _ | c
  · rfl
  · rcases slot with _ | d
    · cases rest with
      | nil =>
        cases more with
        | nil => exact absurd rfl (h.2 rfl).1
        | cons e more => exact absurd h.1 (Nat.not_succ_le_self more.length)
      | cons e rest => rfl
    · rfl

/-- Taking characters that stand before the text behind takes the same ones whatever that text is. -/
theorem advanceBy_followedBy {k : Nat} (h : ((s.followedBy more).advanceBy k).Before more) :
    ∃ u taken, ∀ other, (s.followedBy other).advanceBy k = followedBy u other ∧
      (s.followedBy other).pending = taken ++ (followedBy u other).pending := by
  induction k generalizing s with
  | zero => exact ⟨s, [], fun _ => ⟨rfl, rfl⟩⟩
  | succ k ih =>
    rw [advanceBy] at h
    have hstep := advance_followedBy h.of_advanceBy
    rw [hstep more] at h
    obtain ⟨u, taken, hu⟩ := ih h
    refine ⟨u, s.current.toList ++ taken, fun other => ⟨?_, ?_⟩⟩
    · rw [advanceBy, hstep other]
      exact (hu other).1
    · rw [pending_eq, hstep other, (hu other).2, List.append_assoc]
      rfl

end Scanner

/-- Whether a step looks at no text behind the character that it ends at. -/
structure Scan.Local {α : Type} (x : Scan α) : Prop where
  shrinks : ∀ {s t : Scanner} {a : α}, x s = .ok a t → t.rest <:+ s.rest
  inside : ∀ {s t : Scanner} {a : α}, x s = .ok a t → t.Inside → s.Inside
  replays : ∀ {s t : Scanner} {a : α} {more : List Char}, x (s.followedBy more) = .ok a t → t.Before more →
    ∃ u : Scanner, ∀ other, x (s.followedBy other) = .ok a (u.followedBy other)

namespace Scan

variable {α β : Type} {readInner : ReadInner}

theorem bind_eq_ok {x : Scan β} {f : β → Scan α} {s t : Scanner} {a : α} :
    (x >>= f) s = .ok a t ↔ ∃ b m, x s = .ok b m ∧ f b m = .ok a t := by
  show EStateM.bind x f s = _ ↔ _
  rw [EStateM.bind]
  cases x s <;> simp [and_assoc]

namespace Local

/-! ### Steps in a row -/

theorem before {x : Scan α} (hx : Local x) {s t : Scanner} {a : α} {more : List Char} (h : x s = .ok a t)
    (ht : t.Before more) : s.Before more :=
  ⟨ht.1.trans (hx.shrinks h).length_le, fun hmore => hx.inside h (ht.2 hmore)⟩

theorem pure {a : α} : Local (Pure.pure a : Scan α) where
  shrinks := by
    rintro s _ _ ⟨⟩
    exact List.suffix_refl _
  inside := by
    rintro s _ _ ⟨⟩
    exact id
  replays := by
    rintro s _ _ more ⟨⟩ -
    exact ⟨s, fun _ => rfl⟩

/-- A step that gives no result. -/
theorem of_error {x : Scan α} (h : ∀ s a t, x s ≠ .ok a t) : Local x :=
  ⟨fun hx => absurd hx (h _ _ _), fun hx => absurd hx (h _ _ _), fun hx => absurd hx (h _ _ _)⟩

theorem fail {cause : ParseCause} : Local (fail cause : Scan α) :=
  of_error fun _ _ _ h => by cases h

theorem throw {e : ParseFailure} : Local (MonadExcept.throw e : Scan α) :=
  of_error fun _ _ _ h => by cases h

theorem bind {x : Scan β} {f : β → Scan α} (hx : Local x) (hf : ∀ b, Local (f b)) : Local (x >>= f) where
  shrinks := by
    intro s t a h
    obtain ⟨b, m, hb, h⟩ := bind_eq_ok.1 h
    exact ((hf b).shrinks h).trans (hx.shrinks hb)
  inside := by
    intro s t a h ht
    obtain ⟨b, m, hb, h⟩ := bind_eq_ok.1 h
    exact hx.inside hb ((hf b).inside h ht)
  replays := by
    intro s t a more h ht
    obtain ⟨b, m, hb, h⟩ := bind_eq_ok.1 h
    obtain ⟨u, hu⟩ := hx.replays hb ((hf b).before h ht)
    obtain ⟨-, rfl⟩ := EStateM.Result.ok.inj (hb.symm.trans (hu more))
    obtain ⟨v, hv⟩ := (hf b).replays h ht
    exact ⟨v, fun other => (bind_ok (hu other)).trans (hv other)⟩

theorem map {x : Scan β} {f : β → α} (hx : Local x) : Local (f <$> x) :=
  bind (f := fun b => Pure.pure (f b)) hx fun _ => pure

theorem ite {c : Prop} [Decidable c] {x y : Scan α} (hx : Local x) (hy : Local y) :
    Local (if c then x else y) := by
  split
  · exact hx
  · exact hy

/-- A step that may be taken first. -/
theorem optional {c : Prop} [Decidable c] {x : Scan Unit} {f : Unit → Scan α} (hx : Local x)
    (hf : Local (f ())) : Local (if c then x >>= f else f ()) :=
  ite (bind hx fun _ => hf) hf

/-! ### Operations of the scanner -/

/-- A step that leaves the scanner as it is, and looks at what has been looked at. -/
theorem look {f : Scanner → α} (hf : ∀ s more, f (s.followedBy more) = f s) :
    Local (fun s => .ok (f s) s : Scan α) where
  shrinks := by
    rintro s _ _ ⟨⟩
    exact List.suffix_refl _
  inside := by
    rintro s _ _ ⟨⟩
    exact id
  replays := by
    rintro s _ _ more ⟨⟩ -
    exact ⟨s, fun other => by rw [hf, hf]⟩

theorem peek : Local peek :=
  look fun _ _ => rfl

theorem here : Local here :=
  look fun _ _ => rfl

/-- A step that takes characters, or gives no result, as the pending ones say. What it takes does not depend on
characters behind the next one. -/
theorem takes {x : Scan α} {f : List Char → Option (α × Nat)}
    (hsome : ∀ s a k, f s.pending = some (a, k) → x s = .ok a (s.advanceBy k))
    (hnone : ∀ s a t, f s.pending = none → x s ≠ .ok a t)
    (hle : ∀ {cs a k}, f cs = some (a, k) → k ≤ cs.length)
    (hsame : ∀ {taken cs ds a}, f (taken ++ cs) = some (a, taken.length) → cs.head? = ds.head? →
      f (taken ++ ds) = some (a, taken.length)) : Local x := by
  have htaken {s t : Scanner} {a : α} (h : x s = .ok a t) : ∃ k, f s.pending = some (a, k) ∧ t = s.advanceBy k := by
    cases hf : f s.pending with
    | none => exact absurd h (hnone s a t hf)
    | some p =>
      obtain ⟨rfl, rfl⟩ := EStateM.Result.ok.inj ((hsome s p.1 p.2 hf).symm.trans h)
      exact ⟨p.2, rfl, rfl⟩
  refine ⟨fun {s t a} h => ?_, fun {s t a} h ht => ?_, fun {s t a more} h ht => ?_⟩
  · obtain ⟨k, -, rfl⟩ := htaken h
    exact Scanner.rest_advanceBy k s
  · obtain ⟨k, -, rfl⟩ := htaken h
    exact ht.of_advanceBy
  · obtain ⟨k, hf, rfl⟩ := htaken h
    obtain ⟨u, taken, hu⟩ := Scanner.advanceBy_followedBy ht
    have hk : taken.length = k := by
      have hdrop := congrArg List.length (Scanner.pending_advanceBy k (s.followedBy more))
      have hk := hle hf
      rw [(hu more).1, (hu more).2, List.length_drop, List.length_append] at hdrop
      rw [(hu more).2, List.length_append] at hk
      omega
    subst hk
    refine ⟨u, fun other => ?_⟩
    rw [(hu more).2] at hf
    have hhead : (u.followedBy more).pending.head? = (u.followedBy other).pending.head? := by
      rw [← Scanner.current_eq, ← Scanner.current_eq]
      rfl
    have hother := hsame hf hhead
    rw [← (hu other).2] at hother
    rw [hsome _ _ _ hother, (hu other).1]

theorem skip : Local skip where
  shrinks := by
    rintro s _ _ ⟨⟩
    exact s.rest_advance
  inside := by
    rintro s _ _ ⟨⟩
    exact Scanner.Inside.of_advance
  replays := by
    rintro s _ _ more ⟨⟩ ht
    exact ⟨s.advance, fun other => congrArg (EStateM.Result.ok ()) (Scanner.advance_followedBy ht other)⟩

/-- Goes to the next character and says whether it is of a class, and if it is not, puts a character back. -/
def lookBackStep (p : Char → Bool) (c : Char) : Scan Bool := fun s =>
  .ok (s.advance.current.any p) (if s.advance.current.any p then s.advance else s.advance.putBack c)

/-- After a character was taken, nothing else has been put back. -/
theorem lookBack (p : Char → Bool) (c : Char) : Local (lookBackStep p c) := by
  have hinside {s : Scanner} (h : (if s.advance.current.any p then s.advance else s.advance.putBack c).Inside) :
      s.advance.Inside := by
    split at h
    · exact h
    · exact Scanner.inside_advance fun hnone => h.2 (congrArg some hnone)
  refine ⟨?_, ?_, ?_⟩
  · rintro s _ _ ⟨⟩
    split <;> exact s.rest_advance
  · rintro s _ _ ⟨⟩ ht
    exact (hinside ht).of_advance
  · rintro s _ _ more ⟨⟩ ht
    have hadvance : (s.followedBy more).advance.Before more := by
      refine ⟨?_, fun hmore => hinside (ht.2 hmore)⟩
      have hlength := ht.1
      split at hlength <;> exact hlength
    refine ⟨if s.advance.current.any p then s.advance else s.advance.putBack c, fun other => ?_⟩
    have hcurrent (other : List Char) : (s.followedBy other).advance.current = s.advance.current := by
      rw [Scanner.advance_followedBy hadvance other]
      rfl
    rw [lookBackStep, hcurrent, hcurrent, Scanner.advance_followedBy hadvance other]
    split <;> rfl

/-- Going to the next character, and back where it is not of a class. -/
theorem lookPast {p : Char → Bool} {c : Char} {x y : Scan α} (hx : Local x) (hy : Local y) :
    Local (do
      Scan.skip
      if ← Scan.sees p then x
      else
        Scan.putBack c
        y) := by
  have heq : (do
      Scan.skip
      if ← Scan.sees p then x
      else
        Scan.putBack c
        y) = (lookBackStep p c >>= fun b => if b then x else y) := by
    funext s
    show (if s.advance.current.any p then x else Scan.putBack c >>= fun _ => y) s.advance =
      (if s.advance.current.any p then x else y)
        (if s.advance.current.any p then s.advance else s.advance.putBack c)
    cases s.advance.current.any p <;> rfl
  rw [heq]
  exact (lookBack p c).bind fun _ => ite hx hy

/-- Where a run of characters of a class ends. -/
theorem takeWhile_append {p : Char → Bool} {taken cs ds : List Char}
    (h : taken.length = ((taken ++ cs).takeWhile p).length) (hhead : cs.head? = ds.head?) :
    (taken ++ ds).takeWhile p = (taken ++ cs).takeWhile p := by
  induction taken with
  | nil =>
    cases cs with
    | nil => cases ds with
      | nil => rfl
      | cons d ds => cases hhead
    | cons c cs => cases ds with
      | nil => cases hhead
      | cons d ds =>
        obtain rfl := Option.some.inj hhead
        cases hp : p c with
        | true => simp [hp] at h
        | false => simp [hp]
  | cons c taken ih =>
    cases hp : p c with
    | true =>
      simp only [List.cons_append, List.takeWhile_cons, hp, List.length_cons] at h ⊢
      simp only [if_true, List.length_cons, Nat.add_right_cancel_iff] at h
      rw [ih h]
    | false => simp [hp] at h

theorem takeWhile (p : Char → Bool) : Local (takeWhile p) := by
  refine takes (f := fun cs => some (cs.takeWhile p, (cs.takeWhile p).length)) ?_ ?_ ?_ ?_
  · rintro s _ _ ⟨⟩
    rfl
  · intro s a t hnone
    cases hnone
  · rintro cs _ _ ⟨⟩
    exact (List.takeWhile_sublist p).length_le
  · intro taken cs ds a h hhead
    obtain ⟨rfl, hlength⟩ := Prod.mk.inj (Option.some.inj h)
    rw [takeWhile_append hlength.symm hhead, hlength]

theorem skipBlanks : Local skipBlanks :=
  (takeWhile isBlank).map (f := fun _ => ())

theorem nextNonBlank : Local nextNonBlank :=
  skip.bind fun _ => skipBlanks

theorem skipNewline : Local skipNewline := by
  have heq : Scan.skipNewline = (do if (← Scan.peek) = some '\n' then Scan.skip else Pure.pure ()) := by
    funext s
    show EStateM.Result.ok () s.skipNewline = (if s.current = some '\n' then Scan.skip else Pure.pure ()) s
    rw [Scanner.skipNewline]
    split <;> rfl
  rw [heq]
  exact peek.bind fun _ => ite skip pure

theorem expect (c : Char) : Local (expect c) :=
  skipBlanks.bind fun _ => peek.bind fun _ => ite skip fail

theorem sees (p : Char → Bool) : Local (sees p) :=
  peek.bind fun _ => pure

theorem name (what : String) : Local (name what) :=
  (sees _).bind fun _ => ite ((takeWhile _).bind fun _ => pure) fail

/-! ### Expressions -/

theorem integer (negative : Bool) : Local (integer negative) :=
  (takeWhile _).bind fun _ => ite fail (here.bind fun _ => pure)

theorem quoted (quote : Quote) : Local (quoted quote) := by
  refine (takeWhile _).bind fun _ => peek.bind fun c => ?_
  cases c with
  | none => exact fail
  | some c => exact ite fail (skip.bind fun _ => pure)

theorem inner (x : Except ParseFailure α) : Local (inner x) := by
  cases x with
  | ok a => exact pure
  | error e => exact throw

theorem text (quote : Quote) : Local (text readInner quote) := by
  refine skip.bind fun _ => (quoted quote).bind fun _ => here.bind fun _ => ?_
  cases quote with
  | single => exact pure
  | double => exact (inner _).map

theorem secondChar (first second : Char) (op : Operator) : Local (secondChar first second op) :=
  peek.bind fun _ => ite (skip.bind fun _ => pure) fail

theorem orEqual (strict weak : Operator) : Local (orEqual strict weak) :=
  peek.bind fun _ => ite (skip.bind fun _ => pure) pure

theorem wordOperator (word : String) (op : Operator) : Local (wordOperator word op) :=
  (name _).bind fun _ => ite pure fail

theorem operator : Local operator := by
  refine skipBlanks.bind fun _ => peek.bind fun c => ?_
  split
  · exact wordOperator _ _
  · exact wordOperator _ _
  · exact skip.bind fun _ => secondChar _ _ _
  · exact skip.bind fun _ => secondChar _ _ _
  · exact skip.bind fun _ => secondChar _ _ _
  · exact skip.bind fun _ => secondChar _ _ _
  · exact skip.bind fun _ => orEqual _ _
  · exact skip.bind fun _ => orEqual _ _
  all_goals first
    | exact pure
    | exact skip.bind fun _ => pure

end Local

section Readers

/-! ### One call more

Each reader is local, if the readers that it calls are. -/

variable {n : Nat} (ih : ∀ {α : Type} (c : Call α), Local (c.run readInner n))

include ih

theorem local_expr : Local (expr readInner (n + 1)) :=
  (ih .unary).bind fun lhs => Local.operator.bind fun next => (ih (.climb lhs next 1)).bind fun _ => .pure

theorem local_climb (lhs : Expr) (next : Option Operator) (least : Nat) :
    Local (climb readInner (n + 1) lhs next least) := by
  cases next with
  | none => exact .pure
  | some op =>
    refine .ite .pure ((ih .unary).bind fun rhs => Local.operator.bind fun next => ?_)
    exact (ih (.climbRight rhs next op.precedence)).bind fun p => ih (.climb (.binary lhs op p.1) p.2 least)

theorem local_climbRight (rhs : Expr) (next : Option Operator) (bound : Nat) :
    Local (climbRight readInner (n + 1) rhs next bound) := by
  cases next with
  | none => exact .pure
  | some op =>
    exact .ite .pure ((ih (.climb rhs (some op) op.precedence)).bind fun p =>
      ih (.climbRight p.1 p.2 bound))

theorem local_unary : Local (unary readInner (n + 1)) := by
  refine Local.skipBlanks.bind fun _ => Local.peek.bind fun c => ?_
  split
  · exact Local.nextNonBlank.bind fun _ => (ih .expr).bind fun _ => (Local.expect _).bind fun _ =>
      Local.skipBlanks.bind fun _ => .pure
  · exact Local.skip.bind fun _ => Local.here.bind fun _ => (ih .unary).bind fun _ =>
      Local.skipBlanks.bind fun _ => .pure
  · exact ih (.primary false)

theorem local_primary (nullAllowed : Bool) : Local (primary readInner (n + 1) nullAllowed) := by
  have hblanks (e : Expr) : Local (do skipBlanks; return e) := Local.skipBlanks.bind fun _ => .pure
  refine Local.skipBlanks.bind fun _ => Local.peek.bind fun c => ?_
  split
  · exact Local.skip.bind fun _ => (ih .required).bind hblanks
  · exact (Local.text _).bind hblanks
  · exact (Local.text _).bind hblanks
  · exact Local.skip.bind fun _ => (Local.integer _).bind hblanks
  · exact (ih .listOrRange).bind hblanks
  · refine .ite ((Local.integer _).bind hblanks) (.ite ((ih (.word nullAllowed)).bind hblanks) ?_)
    exact Local.fail.bind hblanks
  · exact Local.fail.bind hblanks

theorem local_word (nullAllowed : Bool) : Local (word readInner (n + 1) nullAllowed) := by
  refine (Local.name _).bind fun w => .ite (Local.here.bind fun _ => .pure) ?_
  refine .ite (Local.here.bind fun _ => .pure) (.ite (Local.here.bind fun _ => (ih .unary).map) ?_)
  exact .ite (Local.here.bind fun _ => .pure) .fail

theorem local_listOrRange : Local (listOrRange readInner (n + 1)) := by
  refine Local.nextNonBlank.bind fun _ => Local.peek.bind fun _ => .ite ?_ ?_
  · exact Local.skip.bind fun _ => Local.here.bind fun _ => .pure
  refine (ih (.primary false)).bind fun _ => Local.peek.bind fun _ => .ite ?_ ?_
  · refine Local.skip.bind fun _ => Local.peek.bind fun _ => .optional .fail ?_
    refine Local.nextNonBlank.bind fun _ => (ih (.primary false)).bind fun _ => Local.peek.bind fun _ => ?_
    exact .optional .fail (Local.nextNonBlank.bind fun _ => Local.here.bind fun _ => .pure)
  · refine (ih .elements).bind fun _ => Local.peek.bind fun _ => .optional .fail ?_
    exact Local.skip.bind fun _ => Local.here.bind fun _ => .pure

theorem local_elements : Local (elements readInner (n + 1)) :=
  Local.peek.bind fun _ => .ite
    (Local.skip.bind fun _ => (ih (.primary false)).bind fun _ => (ih .elements).map) .pure

theorem local_required : Local (required readInner (n + 1)) := by
  refine Local.peek.bind fun _ => .optional .skip (Local.peek.bind fun _ => .ite ?_ (ih (.reference false)))
  exact Local.skip.bind fun _ => (ih (.reference false)).bind fun _ => (Local.expect _).bind fun _ => .pure

theorem local_reference (quiet : Bool) : Local (reference readInner (n + 1) quiet) :=
  (Local.name _).bind fun _ => Local.here.bind fun _ => (ih .suffixes).map

theorem local_suffixes : Local (suffixes readInner (n + 1)) := by
  refine Local.peek.bind fun c => ?_
  split
  · refine Local.lookPast ((Local.name _).bind fun m => Local.peek.bind fun _ => ?_) .pure
    refine .ite ?_ ?_
    · exact (ih .arguments).map.bind fun _ => (ih .suffixes).map
    · exact Local.pure.bind fun _ => (ih .suffixes).map
  · refine Local.skip.bind fun _ => (ih (.primary false)).bind fun _ => Local.peek.bind fun _ => ?_
    exact .optional .fail (Local.skip.bind fun _ => (ih .suffixes).map)
  · exact .pure

theorem local_arguments : Local (arguments readInner (n + 1)) := by
  refine Local.nextNonBlank.bind fun _ => Local.peek.bind fun _ => .ite (Local.skip.bind fun _ => .pure) ?_
  refine (ih (.primary true)).bind fun _ => (ih .moreArguments).bind fun _ => Local.peek.bind fun _ => ?_
  exact .optional .fail (Local.skip.bind fun _ => .pure)

theorem local_moreArguments : Local (moreArguments readInner (n + 1)) :=
  Local.peek.bind fun _ => .ite
    (Local.nextNonBlank.bind fun _ => (ih (.primary true)).bind fun _ => (ih .moreArguments).map) .pure

theorem local_callArguments : Local (callArguments readInner (n + 1)) := by
  refine Local.skipBlanks.bind fun _ => Local.peek.bind fun _ => .ite (Local.skip.bind fun _ => .pure) ?_
  exact (ih (.primary false)).bind fun _ => Local.peek.bind fun _ => .optional .skip (ih .callArguments).map

theorem local_parameters : Local (parameters (n + 1)) := by
  have hparameter : Local (do
      if (← peek) ≠ some '$' then fail .parameter
      skip
      let p ← name "Macro parameter name"
      return p :: (← parameters n)) :=
    Local.peek.bind fun _ => .optional .fail
      (Local.skip.bind fun _ => (Local.name _).bind fun _ => (ih .parameters).map)
  refine Local.skipBlanks.bind fun _ => Local.peek.bind fun _ => .ite (Local.skip.bind fun _ => .pure) ?_
  refine Local.peek.bind fun _ => .ite ?_ hparameter
  exact Local.skip.bind fun _ => Local.skipBlanks.bind fun _ => hparameter

end Readers

/-- No call looks at text behind the character that it ends at. -/
theorem Call.isLocal (n : Nat) {α : Type} (c : Call α) : Local (c.run readInner n) := by
  induction n generalizing α with
  | zero =>
    have hzero : c.run readInner 0 = throw .exhausted := by cases c <;> rfl
    rw [hzero]
    exact .throw
  | succ n ih =>
    cases c with
    | expr => exact local_expr ih
    | climb lhs next least => exact local_climb ih lhs next least
    | climbRight rhs next bound => exact local_climbRight ih rhs next bound
    | unary => exact local_unary ih
    | primary nullAllowed => exact local_primary ih nullAllowed
    | word nullAllowed => exact local_word ih nullAllowed
    | listOrRange => exact local_listOrRange ih
    | elements => exact local_elements ih
    | required => exact local_required ih
    | reference quiet => exact local_reference ih quiet
    | suffixes => exact local_suffixes ih
    | arguments => exact local_arguments ih
    | moreArguments => exact local_moreArguments ih
    | callArguments => exact local_callArguments ih
    | parameters => exact local_parameters ih

end Scan

end Stencil
