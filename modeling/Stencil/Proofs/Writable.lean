import Stencil.Proofs.Reading
import Stencil.Proofs.Shape

/-!
# What reading makes

An expression that was read is one that can be written: its names are names, its numbers are words, its
texts hold no quote, and null and expressions with operators stand only where the language has them.
`Scan.Makes` says what a step of reading makes when it ends, from a scanner without carriage returns.
-/

namespace Stencil

open Stencil.Text

/-- Whether no carriage return is still to be read, nor was put back. -/
structure Scanner.Clean (s : Scanner) : Prop where
  current : s.current ≠ some '\r'
  slot : s.slot ≠ some (some '\r')
  rest : '\r' ∉ s.rest

namespace Scanner.Clean

variable {s : Scanner}

theorem pending (h : s.Clean) : '\r' ∉ s.pending := by
  obtain ⟨resource, current, slot, rest, line⟩ := s
  obtain ⟨hc, hs, hr⟩ := h
  rcases current with _ | c <;> rcases slot with _ | _ | d <;> simp_all [Scanner.pending, eq_comm]

theorem take (h : s.Clean) : s.take.Clean := by
  obtain ⟨resource, current, slot, rest, line⟩ := s
  obtain ⟨hc, hs, hr⟩ := h
  cases rest with
  | nil => exact ⟨nofun, hs, hr⟩
  | cons c cs =>
    simp only [List.mem_cons, not_or] at hr
    exact ⟨fun h => hr.1 (Option.some.inj h).symm, hs, hr.2⟩

theorem advance (h : s.Clean) : s.advance.Clean := by
  obtain ⟨resource, current, slot, rest, line⟩ := s
  rcases current with _ | c
  · exact h
  · cases slot with
    | none => exact h.take
    | some d => exact ⟨fun hd => h.slot (congrArg some hd), nofun, h.rest⟩

theorem advanceBy (h : s.Clean) (n : Nat) : (s.advanceBy n).Clean := by
  induction n generalizing s with
  | zero => exact h
  | succ n ih => exact ih h.advance

theorem putBack (h : s.Clean) {c : Char} (hc : c ≠ '\r') : (s.putBack c).Clean :=
  ⟨fun he => hc (Option.some.inj he), fun he => h.current (Option.some.inj he), h.rest⟩

theorem ofText (text : String) (resource : Option String) : (Scanner.ofText text resource).Clean :=
  take ⟨nofun, nofun, return_not_mem_unifyNewlines _⟩

end Scanner.Clean

namespace Scan

variable {α β : Type} {Φ Ψ : α → Prop}

/-- Whether what a step makes, when it ends, satisfies `Φ`. -/
def Makes (x : Scan α) (Φ : α → Prop) : Prop :=
  ∀ s : Scanner, s.Clean → ∀ a s', x s = .ok a s' → Φ a ∧ s'.Clean

theorem Makes.mono {x : Scan α} (h : Makes x Φ) (hΦ : ∀ a, Φ a → Ψ a) : Makes x Ψ :=
  fun s hs a s' hx => ⟨hΦ a (h s hs a s' hx).1, (h s hs a s' hx).2⟩

theorem Makes.pure {a : α} (h : Φ a) : Makes (Pure.pure a) Φ := by
  rintro s hs _ _ ⟨⟩
  exact ⟨h, hs⟩

theorem Makes.bind {x : Scan β} {f : β → Scan α} (h : Makes x fun b => Makes (f b) Φ) :
    Makes (x >>= f) Φ := by
  intro s hs a s' hx
  change EStateM.bind x f s = _ at hx
  rw [EStateM.bind] at hx
  split at hx
  · rename_i b s₁ hb
    obtain ⟨hf, hs₁⟩ := h s hs b s₁ hb
    exact hf s₁ hs₁ a s' hx
  · cases hx

theorem Makes.modify {f : Scanner → Scanner} {Φ : Unit → Prop} (hf : ∀ s, s.Clean → (f s).Clean) (h : Φ ()) :
    Makes (modify f) Φ := by
  rintro s hs _ _ ⟨⟩
  exact ⟨h, hf s hs⟩

theorem Makes.map {x : Scan β} {f : β → α} (h : Makes x fun b => Φ (f b)) : Makes (f <$> x) Φ :=
  Makes.bind (f := fun b => Pure.pure (f b)) (h.mono fun _ hb => .pure hb)

theorem Makes.fail {cause : ParseCause} : Makes (fail cause) Φ := by
  rintro s hs a s' ⟨⟩

theorem Makes.exhausted : Makes exhausted Φ := by
  rintro s hs a s' ⟨⟩

theorem Makes.inner {x : Except ParseFailure α} (h : ∀ a, Φ a) : Makes (inner x) Φ := by
  cases x with
  | ok a => exact .pure (h a)
  | error e => rintro s hs a s' ⟨⟩

theorem Makes.peek {Φ : Option Char → Prop} (h : ∀ c, Φ c) : Makes peek Φ := by
  rintro s hs _ _ ⟨⟩
  exact ⟨h _, hs⟩

theorem Makes.here {Φ : Place → Prop} (h : ∀ place, Φ place) : Makes here Φ := by
  rintro s hs _ _ ⟨⟩
  exact ⟨h _, hs⟩

theorem Makes.skip {Φ : Unit → Prop} (h : Φ ()) : Makes skip Φ :=
  .modify (fun _ hs => hs.advance) h

theorem Makes.skipBlanks {Φ : Unit → Prop} (h : Φ ()) : Makes skipBlanks Φ :=
  .modify (fun _ hs => hs.advanceBy _) h

theorem Makes.nextNonBlank {Φ : Unit → Prop} (h : Φ ()) : Makes nextNonBlank Φ :=
  .modify (fun _ hs => hs.advance.advanceBy _) h

theorem Makes.putBack {c : Char} {Φ : Unit → Prop} (hc : c ≠ '\r') (h : Φ ()) : Makes (putBack c) Φ :=
  .modify (fun _ hs => hs.putBack hc) h

theorem Makes.takeWhile {p : Char → Bool} {Φ : List Char → Prop}
    (h : ∀ cs : List Char, (∀ c ∈ cs, p c = true ∧ c ≠ '\r') → Φ cs) : Makes (takeWhile p) Φ := by
  rintro s hs _ _ ⟨⟩
  refine ⟨h _ fun c hc => ⟨List.all_eq_true.1 List.all_takeWhile c hc, ?_⟩, hs.advanceBy _⟩
  rintro rfl
  exact hs.pending (List.takeWhile_subset _ hc)

theorem Makes.expect {c : Char} {Φ : Unit → Prop} (h : Φ ()) : Makes (expect c) Φ := by
  refine .bind (.skipBlanks (.bind (.peek fun d => ?_)))
  split
  · exact .skip h
  · exact .fail

theorem Makes.sees {p : Char → Bool} {Φ : Bool → Prop} (h : ∀ b, Φ b) : Makes (sees p) Φ :=
  .bind (.peek fun _ => .pure (h _))

/-- What is read as a name is a name. -/
theorem Makes.name {what : String} {Φ : String → Prop} (h : ∀ x, IsName x → Φ x) :
    Makes (name what) Φ := by
  intro s hs x s' hx
  change (if s.current.any isLetter then do return String.ofList (← Scan.takeWhile isNameChar)
    else Scan.fail (.nameStart what) : Scan String) s = _ at hx
  split at hx
  · rename_i hletter
    cases hx
    refine ⟨h _ ?_, hs.advanceBy _⟩
    rw [Scanner.current_eq] at hletter
    match hp : s.pending with
    | [] => simp [hp] at hletter
    | c :: cs =>
      have hc : isLetter c = true := by simpa [hp] using hletter
      refine ⟨c, cs.takeWhile isNameChar, ?_, hc, fun d hd => List.all_eq_true.1 List.all_takeWhile d hd⟩
      rw [String.toList_ofList]
      exact List.takeWhile_cons_of_pos (isNameChar_of_isLetter hc)
  · cases hx

end Scan

/-- What reading makes sure of in a whole expression. -/
def Expr.Made (e : Expr) : Prop :=
  e.Everywhere Expr.IsWritable

open Scan

/-- What reading with some fuel makes, where an expression is expected and where its parts are. -/
structure MakesWritable (readInner : ReadInner) (n : Nat) : Prop where
  expr : Makes (expr readInner n) fun e => e.Made ∧ e.isNull = false
  climb : ∀ {lhs next least}, lhs.Made → lhs.isNull = false →
    Makes (climb readInner n lhs next least) fun r => r.1.Made ∧ r.1.isNull = false
  climbRight : ∀ {rhs next bound}, rhs.Made → rhs.isNull = false →
    Makes (climbRight readInner n rhs next bound) fun r => r.1.Made ∧ r.1.isNull = false
  unary : Makes (unary readInner n) fun e => e.Made ∧ e.isNull = false
  primary : ∀ nullAllowed, Makes (primary readInner n nullAllowed) fun e =>
    e.Made ∧ e.isBinary = false ∧ (nullAllowed = false → e.isNull = false)
  word : ∀ nullAllowed, Makes (word readInner n nullAllowed) fun e =>
    e.Made ∧ e.isBinary = false ∧ (nullAllowed = false → e.isNull = false)
  listOrRange : Makes (listOrRange readInner n) fun e => e.Made ∧ e.IsItem
  elements : Makes (elements readInner n) fun es => ∀ e ∈ es, e.Made ∧ e.IsItem
  required : Makes (required readInner n) fun e => e.Made ∧ e.IsItem
  reference : Makes (reference readInner n false) fun e => e.Made ∧ e.IsItem
  suffixes : Makes (suffixes readInner n) fun ss => ∀ s ∈ ss, s.IsWritable ∧ ∀ i ∈ s.items, i.Made
  arguments : Makes (arguments readInner n) fun es => ∀ e ∈ es, e.Made ∧ e.isBinary = false
  moreArguments : Makes (moreArguments readInner n) fun es => ∀ e ∈ es, e.Made ∧ e.isBinary = false

namespace MakesWritable

variable {readInner : ReadInner} {n : Nat}

theorem zero : MakesWritable readInner 0 where
  expr := .exhausted
  climb _ _ := .exhausted
  climbRight _ _ := .exhausted
  unary := .exhausted
  primary _ := .exhausted
  word _ := .exhausted
  listOrRange := .exhausted
  elements := .exhausted
  required := .exhausted
  reference := .exhausted
  suffixes := .exhausted
  arguments := .exhausted
  moreArguments := .exhausted

theorem makes_integer {negative : Bool} {Φ : Expr → Prop}
    (h : ∀ place m, Number.isWord m = true → Φ (.literal place (.int m))) : Makes (integer negative) Φ := by
  have hchecked {m : Int} {cs : List Char} {cause : ParseCause} : Makes
      (if cs.isEmpty || Number.longestInteger < cs.length || !Number.isWord m then
        Scan.fail cause
      else do return .literal (← Scan.here) (.int m)) Φ := by
    split
    · exact .fail
    · rename_i hgood
      refine .bind (.here fun place => .pure (h place m ?_))
      simp only [Bool.or_eq_true, Bool.not_eq_true', not_or, Bool.not_eq_false] at hgood
      exact hgood.2
  exact .bind (.takeWhile fun cs _ => hchecked)

theorem makes_operator {Φ : Option Operator → Prop} (h : ∀ op, Φ op) : Makes operator Φ := by
  have hsecond (first second op) : Makes (secondChar first second op) Φ := by
    refine .bind (.peek fun c => ?_)
    split
    · exact .bind (.skip (.pure (h _)))
    · exact .fail
  have hequal (strict weak) : Makes (orEqual strict weak) Φ := by
    refine .bind (.peek fun c => ?_)
    split
    · exact .bind (.skip (.pure (h _)))
    · exact .pure (h _)
  have hword (word op) : Makes (wordOperator word op) Φ := by
    refine .bind (.name fun x _ => ?_)
    split
    · exact .pure (h _)
    · exact .fail
  refine .bind (.skipBlanks (.bind (.peek fun c => ?_)))
  split
  · exact hword _ _
  · exact hword _ _
  · exact .bind (.skip (hsecond _ _ _))
  · exact .bind (.skip (hsecond _ _ _))
  · exact .bind (.skip (hsecond _ _ _))
  · exact .bind (.skip (hsecond _ _ _))
  · exact .bind (.skip (hequal _ _))
  · exact .bind (.skip (hequal _ _))
  all_goals first | exact .bind (.skip (.pure (h _))) | exact .pure (h _)

theorem makes_text {quote : Quote} : Makes (text readInner quote) fun e => e.Made ∧ e.IsItem := by
  refine .bind (.skip (.bind (.bind (.takeWhile fun cs hcs => .bind (.peek fun c => ?_)))))
  split
  · exact .fail
  · split
    · exact .fail
    · refine .bind (.skip (.pure (.bind (.here fun place => ?_))))
      cases quote with
      | single =>
        refine .pure ⟨⟨place, _, rfl, fun c hc => ?_⟩, rfl, rfl⟩
        obtain ⟨hc, hreturn⟩ := hcs c (by simpa using hc)
        simpa [Quote.char, hreturn] using hc
      | double => exact .bind (.inner fun nodes => .pure ⟨trivial, rfl, rfl⟩)

section Step

variable (h : MakesWritable readInner n)

include h

theorem expr_succ : Makes (Scan.expr readInner (n + 1)) fun e => e.Made ∧ e.isNull = false := by
  rw [Scan.expr]
  refine .bind (h.unary.mono fun lhs hlhs => .bind (makes_operator fun next => .bind ?_))
  exact (h.climb hlhs.1 hlhs.2).mono fun _ hr => .pure hr

theorem climb_succ {lhs : Expr} {next : Option Operator} {least : Nat} (hlhs : lhs.Made)
    (hnull : lhs.isNull = false) :
    Makes (Scan.climb readInner (n + 1) lhs next least) fun r => r.1.Made ∧ r.1.isNull = false := by
  cases next with
  | none => exact .pure ⟨hlhs, hnull⟩
  | some op =>
    rw [Scan.climb]
    split
    · exact .pure ⟨hlhs, hnull⟩
    · refine .bind (h.unary.mono fun u hu => .bind (makes_operator fun next => .bind ?_))
      refine (h.climbRight hu.1 hu.2).mono fun r hr => h.climb ?_ rfl
      exact ⟨⟨hnull, hr.2⟩, hlhs, hr.1⟩

theorem climbRight_succ {rhs : Expr} {next : Option Operator} {bound : Nat} (hrhs : rhs.Made)
    (hnull : rhs.isNull = false) :
    Makes (Scan.climbRight readInner (n + 1) rhs next bound) fun r => r.1.Made ∧ r.1.isNull = false := by
  cases next with
  | none => exact .pure ⟨hrhs, hnull⟩
  | some op =>
    rw [Scan.climbRight]
    split
    · exact .pure ⟨hrhs, hnull⟩
    · exact .bind ((h.climb hrhs hnull).mono fun r hr => h.climbRight hr.1 hr.2)

theorem unary_succ : Makes (Scan.unary readInner (n + 1)) fun e => e.Made ∧ e.isNull = false := by
  rw [Scan.unary]
  refine .bind (.skipBlanks (.bind (.peek fun c => ?_)))
  split
  · refine .bind (.nextNonBlank (.bind (h.expr.mono fun e he => .bind (.expect ?_))))
    exact .bind (.skipBlanks (.pure he))
  · refine .bind (.skip (.bind (.here fun place => .bind (h.unary.mono fun e he => ?_))))
    exact .bind (.skipBlanks (.pure ⟨⟨he.2, he.1⟩, rfl⟩))
  · exact (h.primary false).mono fun e he => ⟨he.1, he.2.2 rfl⟩

theorem primary_succ (nullAllowed : Bool) : Makes (Scan.primary readInner (n + 1) nullAllowed) fun e =>
    e.Made ∧ e.isBinary = false ∧ (nullAllowed = false → e.isNull = false) := by
  have hend {x : Scan Expr} (hx : Makes x fun e =>
      e.Made ∧ e.isBinary = false ∧ (nullAllowed = false → e.isNull = false)) :
      Makes (do let e ← x; Scan.skipBlanks; return e) fun e =>
        e.Made ∧ e.isBinary = false ∧ (nullAllowed = false → e.isNull = false) :=
    .bind (hx.mono fun e he => .bind (.skipBlanks (.pure he)))
  have hitem {x : Scan Expr} (hx : Makes x fun e => e.Made ∧ e.IsItem) :
      Makes (do let e ← x; Scan.skipBlanks; return e) fun e =>
        e.Made ∧ e.isBinary = false ∧ (nullAllowed = false → e.isNull = false) :=
    hend (hx.mono fun e he => ⟨he.1, he.2.1, fun _ => he.2.2⟩)
  have hinteger (negative : Bool) : Makes (integer negative) fun e => e.Made ∧ e.IsItem :=
    makes_integer fun place m hm => ⟨hm, rfl, rfl⟩
  rw [Scan.primary]
  refine .bind (.skipBlanks (.bind (.peek fun c => ?_)))
  split
  · exact .bind (.skip (hitem h.required))
  · exact hitem makes_text
  · exact hitem makes_text
  · exact .bind (.skip (hitem (hinteger true)))
  · exact hitem h.listOrRange
  · split
    · exact hitem (hinteger false)
    · split
      · exact hend (h.word nullAllowed)
      · exact hend .fail
  · exact hend .fail

theorem word_succ (nullAllowed : Bool) : Makes (Scan.word readInner (n + 1) nullAllowed) fun e =>
    e.Made ∧ e.isBinary = false ∧ (nullAllowed = false → e.isNull = false) := by
  have hbool (b : Bool) : Makes (do return Expr.literal (← Scan.here) (.bool b)) fun e =>
      e.Made ∧ e.isBinary = false ∧ (nullAllowed = false → e.isNull = false) :=
    .bind (.here fun place => .pure ⟨trivial, rfl, fun _ => rfl⟩)
  rw [Scan.word]
  refine .bind (.name fun w _ => ?_)
  split
  · exact hbool true
  split
  · exact hbool false
  split
  · refine .bind (.here fun place => .bind (h.unary.mono fun e he => ?_))
    exact .pure ⟨⟨he.2, he.1⟩, rfl, fun _ => rfl⟩
  split
  · rename_i hnull
    refine .bind (.here fun place => .pure ⟨trivial, rfl, fun hf => ?_⟩)
    simp [hf] at hnull
  · exact .fail

theorem listOrRange_succ : Makes (Scan.listOrRange readInner (n + 1)) fun e => e.Made ∧ e.IsItem := by
  have hitem : Makes (Scan.primary readInner n false) fun e => e.Made ∧ e.IsItem :=
    (h.primary false).mono fun e he => ⟨he.1, he.2.1, he.2.2 rfl⟩
  rw [Scan.listOrRange]
  refine .bind (.nextNonBlank (.bind (.peek fun c => ?_)))
  split
  · exact .bind (.skip (.bind (.here fun place => .pure ⟨⟨nofun, trivial⟩, rfl, rfl⟩)))
  · refine .bind (hitem.mono fun first hfirst => .bind (.peek fun c => ?_))
    split
    · refine .bind (.skip (.bind (.peek fun c => ?_)))
      split
      · exact .bind .fail
      · refine .bind (.nextNonBlank (.bind (hitem.mono fun last hlast => .bind (.peek fun c => ?_))))
        split
        · exact .bind .fail
        · refine .bind (.nextNonBlank (.bind (.here fun place => .pure ⟨?_, rfl, rfl⟩)))
          exact ⟨⟨hfirst.2, hlast.2⟩, hfirst.1, hlast.1⟩
    · refine .bind (h.elements.mono fun others hothers => .bind (.peek fun c => ?_))
      split
      · exact .bind .fail
      · refine .bind (.skip (.bind (.here fun place => .pure ⟨?_, rfl, rfl⟩)))
        have hall : ∀ e ∈ first :: others, e.Made ∧ e.IsItem := List.forall_mem_cons.2 ⟨hfirst, hothers⟩
        exact ⟨fun e he => (hall e he).2, exprsEverywhere_iff.2 fun e he => (hall e he).1⟩

theorem elements_succ : Makes (Scan.elements readInner (n + 1)) fun es => ∀ e ∈ es, e.Made ∧ e.IsItem := by
  rw [Scan.elements]
  refine .bind (.peek fun c => ?_)
  split
  · refine .bind (.skip (.bind ((h.primary false).mono fun e he => .bind (h.elements.mono fun es hes => ?_))))
    exact .pure (List.forall_mem_cons.2 ⟨⟨he.1, he.2.1, he.2.2 rfl⟩, hes⟩)
  · exact .pure nofun

theorem required_succ : Makes (Scan.required readInner (n + 1)) fun e => e.Made ∧ e.IsItem := by
  have hafter : Makes (do
      if (← Scan.peek) = some '\x7b' then
        Scan.skip
        let e ← Scan.reference readInner n false
        Scan.expect '\x7d'
        return e
      else Scan.reference readInner n false) fun e => e.Made ∧ e.IsItem := by
    refine .bind (.peek fun c => ?_)
    split
    · exact .bind (.skip (.bind (h.reference.mono fun e he => .bind (.expect (.pure he)))))
    · exact h.reference
  rw [Scan.required]
  refine .bind (.peek fun c => ?_)
  split
  · exact .bind (.skip hafter)
  · exact hafter

theorem reference_succ : Makes (Scan.reference readInner (n + 1) false) fun e => e.Made ∧ e.IsItem := by
  rw [Scan.reference]
  refine .bind (.name fun x hx => .bind (.here fun place => .bind (h.suffixes.mono fun ss hss => ?_)))
  refine .pure ⟨⟨⟨hx, rfl, fun s hs => (hss s hs).1⟩, ?_⟩, rfl, rfl⟩
  exact suffixesEverywhere_iff.2 fun s hs => (hss s hs).2

theorem suffixes_succ : Makes (Scan.suffixes readInner (n + 1)) fun ss =>
    ∀ s ∈ ss, s.IsWritable ∧ ∀ i ∈ s.items, i.Made := by
  have hrest {s : Suffix} (hs : s.IsWritable ∧ ∀ i ∈ s.items, i.Made) :
      Makes (do return s :: (← Scan.suffixes readInner n)) fun ss =>
        ∀ s ∈ ss, s.IsWritable ∧ ∀ i ∈ s.items, i.Made :=
    .bind (h.suffixes.mono fun ss hss => .pure (List.forall_mem_cons.2 ⟨hs, hss⟩))
  rw [Scan.suffixes]
  refine .bind (.peek fun c => ?_)
  split
  · refine .bind (.skip (.bind (.sees fun b => ?_)))
    split
    · refine .bind (.name fun m hm => .bind (.peek fun c => ?_))
      split
      · refine .bind (.map (h.arguments.mono fun args hargs => hrest ?_))
        exact ⟨⟨hm, fun a ha => (hargs a ha).2⟩, fun a ha => (hargs a ha).1⟩
      · exact .bind (.pure (hrest ⟨hm, nofun⟩))
    · exact .bind (.putBack (by decide) (.pure nofun))
  · refine .bind (.skip (.bind ((h.primary false).mono fun key hkey => .bind (.peek fun c => ?_))))
    split
    · exact .bind .fail
    · refine .bind (.skip (hrest ⟨⟨hkey.2.1, hkey.2.2 rfl⟩, ?_⟩))
      exact List.forall_mem_singleton.2 hkey.1
  · exact .pure nofun

theorem arguments_succ : Makes (Scan.arguments readInner (n + 1)) fun es =>
    ∀ e ∈ es, e.Made ∧ e.isBinary = false := by
  rw [Scan.arguments]
  refine .bind (.nextNonBlank (.bind (.peek fun c => ?_)))
  split
  · exact .bind (.skip (.pure nofun))
  · refine .bind ((h.primary true).mono fun first hfirst => .bind (h.moreArguments.mono fun es hes => ?_))
    refine .bind (.peek fun c => ?_)
    split
    · exact .bind .fail
    · exact .bind (.skip (.pure (List.forall_mem_cons.2 ⟨⟨hfirst.1, hfirst.2.1⟩, hes⟩)))

theorem moreArguments_succ : Makes (Scan.moreArguments readInner (n + 1)) fun es =>
    ∀ e ∈ es, e.Made ∧ e.isBinary = false := by
  rw [Scan.moreArguments]
  refine .bind (.peek fun c => ?_)
  split
  · refine .bind (.nextNonBlank (.bind ((h.primary true).mono fun e he => ?_)))
    refine .bind (h.moreArguments.mono fun es hes => ?_)
    exact .pure (List.forall_mem_cons.2 ⟨⟨he.1, he.2.1⟩, hes⟩)
  · exact .pure nofun

end Step

end MakesWritable

open MakesWritable in
/-- What reading makes can be written. -/
theorem makesWritable (readInner : ReadInner) (n : Nat) : MakesWritable readInner n := by
  induction n with
  | zero => exact .zero
  | succ n ih =>
    exact {
      expr := expr_succ ih
      climb := climb_succ ih
      climbRight := climbRight_succ ih
      unary := unary_succ ih
      primary := primary_succ ih
      word := word_succ ih
      listOrRange := listOrRange_succ ih
      elements := elements_succ ih
      required := required_succ ih
      reference := reference_succ ih
      suffixes := suffixes_succ ih
      arguments := arguments_succ ih
      moreArguments := moreArguments_succ ih }

/-- An expression that was read can be written, and is not null. -/
theorem made_of_read {resource : Option String} {text : String} {t : Expr} {s : Scanner}
    (h : Expr.read resource text = .ok (t, s)) : t.Made ∧ t.isNull = false := by
  rw [Expr.read] at h
  split at h
  · rename_i hread
    cases h
    exact ((makesWritable _ _).expr _ (.ofText text resource) _ _ hread).1
  · cases h

end Stencil
