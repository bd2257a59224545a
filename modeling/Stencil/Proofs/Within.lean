import Stencil.Proofs.LocalDocument
import Stencil.Proofs.DocumentAlike
import Stencil.Proofs.InPlace
import Stencil.Proofs.RowText

/-!
# Calls within reading

A reader calls others on its way, each from where the steps before it lead: `Scan.Carries` lists the calls that
stand in the definitions of the readers of expressions, and `Scan.Within` follows them from call to call. What
comes before a call does not depend on the text behind it, and what comes after it goes on alike after alike
results; so texts that are read alike by a call within another one are read alike by that: `Midway.agrees`.
-/

namespace Stencil

open Stencil.Text

/-! ### Steps in the middle of others -/

/-- Whether two ends of steps give related results in related states, or fail in the same way. -/
def Agrees {σ α : Type} (R : σ → σ → Prop) (A : α → α → Prop) (x x' : EStateM.Result ParseFailure σ α) : Prop :=
  match x, x' with
  | .ok a t, .ok a' t' => A a a' ∧ R t t'
  | .error e _, .error e' _ => e.Like e'
  | _, _ => False

section Midway

variable {σ : Type} (L : {γ : Type} → EStateM ParseFailure σ γ → σ → Prop) (R : σ → σ → Prop)

/-- Whether the step `z` is taken from the state `u` on the way of another one: the steps before it satisfy `L`
where they are taken, and those after it go on alike after related results in related states. -/
inductive Midway {β : Type} (B : β → β → Prop) (z : EStateM ParseFailure σ β) (u : σ) :
    {α : Type} → (α → α → Prop) → EStateM ParseFailure σ α → σ → Prop
  | here : Midway B z u B z u
  | first {α γ : Type} {A : α → α → Prop} {C : γ → γ → Prop} {x : EStateM ParseFailure σ γ}
      {f : γ → EStateM ParseFailure σ α} {s : σ} (h : Midway B z u C x s)
      (hf : ∀ c c', C c c' → Parallel R A (f c) (f c')) : Midway B z u A (x >>= f) s
  | later {α γ : Type} {A : α → α → Prop} {x : EStateM ParseFailure σ γ} {f : γ → EStateM ParseFailure σ α}
      {s t : σ} {c : γ} (hx : L x s) (hc : x s = .ok c t) (h : Midway B z u A (f c) t) : Midway B z u A (x >>= f) s

variable {L R} {α β γ : Type} {A : α → α → Prop} {B : β → β → Prop} {C : γ → γ → Prop}
  {x : EStateM ParseFailure σ α} {y : EStateM ParseFailure σ γ} {z : EStateM ParseFailure σ β} {s t u : σ}

namespace Midway

theorem trans (h : Midway L R B z u C y t) (h' : Midway L R C y t A x s) : Midway L R B z u A x s := by
  induction h' with
  | here => exact h
  | first _ hf ih => exact .first ih hf
  | later hx hc _ ih => exact .later hx hc ih

/-- What holds where the other step begins holds where the step is taken, if the steps before keep it. -/
theorem forth {G : σ → Prop} (h : Midway L R B z u A x s)
    (hforth : ∀ {γ : Type} {y : EStateM ParseFailure σ γ} {s t : σ} {c : γ}, L y s → y s = .ok c t → G s → G t)
    (hs : G s) : G u := by
  induction h with
  | here => exact hs
  | first _ _ ih => exact ih hs
  | later hx hc _ ih => exact ih (hforth hx hc hs)

/-- What holds where the step is taken holds where the other one began, if the steps before give it back. -/
theorem back {G : σ → Prop} (h : Midway L R B z u A x s)
    (hback : ∀ {γ : Type} {y : EStateM ParseFailure σ γ} {s t : σ} {c : γ}, L y s → y s = .ok c t → G t → G s)
    (hu : G u) : G s := by
  induction h with
  | here => exact hu
  | first _ _ ih => exact ih
  | later hx hc _ ih => exact hback hx hc ih

/-- A step that is taken alike from two states is taken alike within another one, from two states that the steps
before it cannot tell apart. -/
theorem agrees {F : σ → σ → Prop} {G : σ → Prop} (h : Midway L R B z u A x s)
    (hback : ∀ {γ : Type} {y : EStateM ParseFailure σ γ} {s t : σ} {c : γ}, L y s → y s = .ok c t → G t → G s)
    (hreplays : ∀ {γ : Type} {y : EStateM ParseFailure σ γ} {s s' t : σ} {c : γ}, L y s → y s = .ok c t → G t →
      F s s' → ∃ t', y s' = .ok c t' ∧ F t t') (hu : G u) {s' : σ} (hs : F s s') :
    ∃ u', F u u' ∧ (Agrees R B (z u) (z u') → Agrees R A (x s) (x s')) := by
  induction h generalizing s' with
  | here => exact ⟨s', hs, id⟩
  | @first α γ A C x f s _ hf ih =>
    obtain ⟨u', hu', hx⟩ := ih hs
    refine ⟨u', hu', fun hz => ?_⟩
    have hx := hx hz
    show Agrees R A (EStateM.bind x f s) (EStateM.bind x f s')
    rw [EStateM.bind, EStateM.bind]
    generalize x s = o at hx
    generalize x s' = o' at hx
    match o, o', hx with
    | .ok c t, .ok c' t', ⟨hc, ht⟩ => exact hf c c' hc t t' ht
    | .error _ _, .error _ _, he => exact he
  | @later α γ A x f s t c hx hc h ih =>
    obtain ⟨t', hc', ht⟩ := hreplays hx hc (h.back hback hu) hs
    obtain ⟨u', hu', hf⟩ := ih ht
    refine ⟨u', hu', fun hz => ?_⟩
    show Agrees R A (EStateM.bind x f s) (EStateM.bind x f s')
    rw [EStateM.bind, EStateM.bind, hc, hc']
    exact hf hz

end Midway

end Midway

theorem Scanner.Settled.advanceBy {s : Scanner} (h : s.Settled) (k : Nat) : (s.advanceBy k).Settled := by
  induction k generalizing s with
  | zero => exact h
  | succ k ih => exact ih (.inl h.advance)

/-! ### Calls of the readers of expressions -/

namespace Scan

namespace Call

/-- When results of a call differ in places only. -/
def Like : {α : Type} → Call α → α → α → Prop
  | _, .expr | _, .unary | _, .primary _ | _, .word _ | _, .listOrRange | _, .required | _, .reference _ =>
    LikeExpr false
  | _, .climb _ _ _ | _, .climbRight _ _ _ => LikeOperand
  | _, .elements | _, .arguments | _, .moreArguments | _, .callArguments => LikeExprs false
  | _, .suffixes => LikeSuffixes false
  | _, .parameters => Eq

end Call

/-- The calls that a call makes: `Carries readInner n c s d t` says that `c` from `s` makes the call `d` from `t`,
each as it stands in the definition of the reader. The calls before it leave `n` levels of fuel for it. -/
inductive Carries (readInner : ReadInner) (n : Nat) :
    {α β : Type} → Call α → Scanner → Call β → Scanner → Prop
  | exprUnary {s} : Carries readInner n .expr s .unary s
  | exprClimb {s t u a next} (ha : unary readInner n s = .ok a t) (hnext : operator t = .ok next u) :
      Carries readInner n .expr s (.climb a next 1) u
  | climbUnary {s a op least} (h : least ≤ op.precedence) : Carries readInner n (.climb a (some op) least) s .unary s
  | climbRight {s t u a b op next least} (h : least ≤ op.precedence) (hb : unary readInner n s = .ok b t)
      (hnext : operator t = .ok next u) :
      Carries readInner n (.climb a (some op) least) s (.climbRight b next op.precedence) u
  | climbOn {s t u v a b b' op next next' least} (h : least ≤ op.precedence) (hb : unary readInner n s = .ok b t)
      (hnext : operator t = .ok next u)
      (hright : Scan.climbRight readInner n b next op.precedence u = .ok (b', next') v) :
      Carries readInner n (.climb a (some op) least) s (.climb (.binary a op b') next' least) v
  | rightClimb {s b op bound} (h : bound < op.precedence) :
      Carries readInner n (.climbRight b (some op) bound) s (.climb b (some op) op.precedence) s
  | rightOn {s t b b' op next bound} (h : bound < op.precedence)
      (hb : climb readInner n b (some op) op.precedence s = .ok (b', next) t) :
      Carries readInner n (.climbRight b (some op) bound) s (.climbRight b' next bound) t
  | unaryExpr {s} (hc : s.skipBlanks.current = some '(') :
      Carries readInner n .unary s .expr s.skipBlanks.nextNonBlank
  | unaryUnary {s} (hc : s.skipBlanks.current = some '!') : Carries readInner n .unary s .unary s.skipBlanks.advance
  | unaryPrimary {s} (hopen : s.skipBlanks.current ≠ some '(') (hnot : s.skipBlanks.current ≠ some '!') :
      Carries readInner n .unary s (.primary false) s.skipBlanks
  | primaryRequired {s b} (hc : s.skipBlanks.current = some '$') :
      Carries readInner n (.primary b) s .required s.skipBlanks.advance
  | primaryList {s b} (hc : s.skipBlanks.current = some '[') :
      Carries readInner n (.primary b) s .listOrRange s.skipBlanks
  | primaryWord {s b c} (hc : s.skipBlanks.current = some c) (hletter : isLetter c = true) :
      Carries readInner n (.primary b) s (.word b) s.skipBlanks
  | wordUnary {s t b} (hw : name "Identifier without $" s = .ok "not" t) : Carries readInner n (.word b) s .unary t
  | listFirst {s} (hc : s.nextNonBlank.current ≠ some ']') :
      Carries readInner n .listOrRange s (.primary false) s.nextNonBlank
  | listLast {s t a} (hc : s.nextNonBlank.current ≠ some ']') (ha : primary readInner n false s.nextNonBlank = .ok a t)
      (hdot : t.current = some '.') (hdots : t.advance.current = some '.') :
      Carries readInner n .listOrRange s (.primary false) t.advance.nextNonBlank
  | listElements {s t a} (hc : s.nextNonBlank.current ≠ some ']')
      (ha : primary readInner n false s.nextNonBlank = .ok a t) (hdot : t.current ≠ some '.') :
      Carries readInner n .listOrRange s .elements t
  | elementsFirst {s} (hc : s.current = some ',') : Carries readInner n .elements s (.primary false) s.advance
  | elementsOn {s t a} (hc : s.current = some ',') (ha : primary readInner n false s.advance = .ok a t) :
      Carries readInner n .elements s .elements t
  | requiredReference {s t} (hquiet : (if s.current = some '!' then s.advance else s) = t) :
      Carries readInner n .required s (.reference false) (if t.current = some '\x7b' then t.advance else t)
  | referenceSuffixes {s t x quiet} (hx : name "Reference" s = .ok x t) :
      Carries readInner n (.reference quiet) s .suffixes t
  | suffixesArguments {s t m} (hdot : s.current = some '.') (hm : name "Member" s.advance = .ok m t)
      (hopen : t.current = some '(') : Carries readInner n .suffixes s .arguments t
  | suffixesMember {s t m} (hdot : s.current = some '.') (hm : name "Member" s.advance = .ok m t)
      (hopen : t.current ≠ some '(') : Carries readInner n .suffixes s .suffixes t
  | suffixesMethod {s t u m es} (hdot : s.current = some '.') (hm : name "Member" s.advance = .ok m t)
      (hopen : t.current = some '(') (hargs : arguments readInner n t = .ok es u) :
      Carries readInner n .suffixes s .suffixes u
  | suffixesKey {s} (hc : s.current = some '[') : Carries readInner n .suffixes s (.primary false) s.advance
  | suffixesIndex {s t key} (hc : s.current = some '[') (hkey : primary readInner n false s.advance = .ok key t)
      (hclose : t.current = some ']') : Carries readInner n .suffixes s .suffixes t.advance
  | argumentsFirst {s} (hc : s.nextNonBlank.current ≠ some ')') :
      Carries readInner n .arguments s (.primary true) s.nextNonBlank
  | argumentsMore {s t a} (hc : s.nextNonBlank.current ≠ some ')')
      (ha : primary readInner n true s.nextNonBlank = .ok a t) : Carries readInner n .arguments s .moreArguments t
  | moreFirst {s} (hc : s.current = some ',') : Carries readInner n .moreArguments s (.primary true) s.nextNonBlank
  | moreOn {s t a} (hc : s.current = some ',') (ha : primary readInner n true s.nextNonBlank = .ok a t) :
      Carries readInner n .moreArguments s .moreArguments t
  | callFirst {s} (hc : s.skipBlanks.current ≠ some ')') :
      Carries readInner n .callArguments s (.primary false) s.skipBlanks
  | callOn {s t a} (hc : s.skipBlanks.current ≠ some ')') (ha : primary readInner n false s.skipBlanks = .ok a t) :
      Carries readInner n .callArguments s .callArguments (if t.current = some ',' then t.advance else t)

/-- A call stands on the way of another one, through the calls between them. -/
inductive Within (readInner : ReadInner) {β : Type} (m : Nat) (d : Call β) (u : Scanner) :
    {α : Type} → Nat → Call α → Scanner → Prop
  | here : Within readInner m d u m d u
  | further {α γ : Type} {n : Nat} {c : Call α} {c' : Call γ} {s t : Scanner} (h : Carries readInner n c s c' t)
      (h' : Within readInner m d u n c' t) : Within readInner m d u (n + 1) c s

/-- Whether a step from a scanner looks at no text behind the character that it ends at, and leaves nothing put
back there but a period. -/
structure Steady {α : Type} (x : Scan α) (s : Scanner) : Prop where
  isLocal : Local x
  settled : ∀ {a : α} {t : Scanner}, x s = .ok a t → s.Settled → t.Settled

namespace Steady

variable {α β : Type} {s : Scanner}

theorem of_course {x : Scan α} {readInner : ReadInner} {n w : Nat} {Φ : α → Scanner → Prop} (hx : Local x)
    (h : Course readInner n w x s Φ) : Steady x s :=
  ⟨hx, (h.goes fun c t hr => c.goes n t hr).settled⟩

theorem call {readInner : ReadInner} {n : Nat} (c : Call α) (hs : c.Ready s) : Steady (c.run readInner n) s :=
  ⟨c.isLocal n, (c.goes n s hs).settled⟩

/-- A step that takes characters. -/
theorem takes {x : Scan α} (hx : Local x) (h : ∀ a t, x s = .ok a t → ∃ k, t = s.advanceBy k) : Steady x s := by
  refine ⟨hx, fun {a t} ha hs => ?_⟩
  obtain ⟨k, rfl⟩ := h a t ha
  exact hs.advanceBy k

theorem pure {a : α} : Steady (Pure.pure a : Scan α) s :=
  takes .pure (by rintro _ _ ⟨⟩; exact ⟨0, rfl⟩)

theorem peek : Steady peek s :=
  takes .peek (by rintro _ _ ⟨⟩; exact ⟨0, rfl⟩)

theorem here : Steady here s :=
  takes .here (by rintro _ _ ⟨⟩; exact ⟨0, rfl⟩)

theorem sees (p : Char → Bool) : Steady (sees p) s :=
  takes (.sees p) (by rintro _ _ ⟨⟩; exact ⟨0, rfl⟩)

theorem skip : Steady skip s :=
  takes .skip (by rintro _ _ ⟨⟩; exact ⟨1, rfl⟩)

theorem skipBlanks : Steady skipBlanks s :=
  takes .skipBlanks (by rintro _ _ ⟨⟩; exact ⟨_, rfl⟩)

theorem nextNonBlank : Steady nextNonBlank s :=
  takes .nextNonBlank (by rintro _ _ ⟨⟩; exact ⟨_ + 1, rfl⟩)

theorem takeWhile (p : Char → Bool) : Steady (takeWhile p) s :=
  takes (.takeWhile p) (by rintro _ _ ⟨⟩; exact ⟨_, rfl⟩)

theorem name (what : String) : Steady (name what) s :=
  .of_course (.name what) (.name fun _ _ _ => trivial : Course (fun _ _ => .error .exhausted) 0 0 _ s fun _ _ => True)

theorem expect (c : Char) : Steady (expect c) s :=
  .of_course (.expect c) (.expect fun _ _ => trivial : Course (fun _ _ => .error .exhausted) 0 0 _ s fun _ _ => True)

theorem operator : Steady operator s :=
  .of_course .operator (.operator fun _ _ _ => trivial : Course (fun _ _ => .error .exhausted) 0 0 _ s fun _ _ => True)

theorem map {x : Scan β} {f : β → α} (hx : Steady x s) : Steady (f <$> x) s := by
  refine ⟨hx.isLocal.map, fun h hs => ?_⟩
  obtain ⟨b, t, hb, hpure⟩ := bind_eq_ok.1 h
  cases hpure
  exact hx.settled hb hs

end Steady

/-- What stands on the way of a reader of expressions. -/
abbrev Midway {β : Type} (B : β → β → Prop) (z : Scan β) (u : Scanner) {α : Type} (A : α → α → Prop)
    (x : Scan α) (s : Scanner) : Prop :=
  Stencil.Midway Steady (Scanner.Beside false) B z u A x s

/-- A name begins with a letter. -/
theorem isLetter_of_name {what m : String} {s t : Scanner} (hm : name what s = .ok m t) :
    s.current.any isLetter = true := by
  by_contra hnone
  obtain ⟨b, v, hsees, hrest⟩ := bind_eq_ok.1 hm
  obtain ⟨rfl, rfl⟩ := EStateM.Result.ok.inj hsees
  rw [if_neg hnone] at hrest
  cases hrest

namespace Midway

variable {α β γ : Type} {A : α → α → Prop} {B : β → β → Prop} {x y : Scan α} {z : Scan β} {s u : Scanner}

theorem here : Midway B z u B z u :=
  Stencil.Midway.here

theorem first {C : γ → γ → Prop} {x : Scan γ} {f : γ → Scan α} (h : Midway B z u C x s)
    (hf : ∀ c c', C c c' → Alike false A (f c) (f c')) : Midway B z u A (x >>= f) s :=
  Stencil.Midway.first h hf

theorem later {x : Scan γ} {f : γ → Scan α} {t : Scanner} {c : γ} (hx : Steady x s) (hc : x s = .ok c t)
    (h : Midway B z u A (f c) t) : Midway B z u A (x >>= f) s :=
  Stencil.Midway.later hx hc h

theorem peeks {f : Option Char → Scan α} {c : Option Char} (hc : s.current = c) (h : Midway B z u A (f c) s) :
    Midway B z u A (peek >>= f) s :=
  .later .peek (congrArg (EStateM.Result.ok · s) hc) h

theorem skips {f : Unit → Scan α} (h : Midway B z u A (f ()) s.advance) : Midway B z u A (skip >>= f) s :=
  .later .skip rfl h

theorem skipsBlanks {f : Unit → Scan α} (h : Midway B z u A (f ()) s.skipBlanks) :
    Midway B z u A (skipBlanks >>= f) s :=
  .later .skipBlanks rfl h

theorem skipsOne {f : Unit → Scan α} (h : Midway B z u A (f ()) s.nextNonBlank) :
    Midway B z u A (nextNonBlank >>= f) s :=
  .later .nextNonBlank rfl h

theorem yes {p : Prop} [Decidable p] (hp : p) (h : Midway B z u A x s) : Midway B z u A (if p then x else y) s := by
  rwa [if_pos hp]

theorem no {p : Prop} [Decidable p] (hp : ¬p) (h : Midway B z u A y s) : Midway B z u A (if p then x else y) s := by
  rwa [if_neg hp]

/-- A character that may stand first is taken, or not. -/
theorem maySkip {p : Prop} [Decidable p] {f : Unit → Scan α}
    (h : Midway B z u A (f ()) (if p then s.advance else s)) : Midway B z u A (if p then skip >>= f else f ()) s := by
  split
  · rw [if_pos ‹p›] at h
    exact .skips h
  · rw [if_neg ‹¬p›] at h
    exact h

/-- Where a name is read a letter is seen first. -/
theorem named {what m : String} {f : String → Scan α} {t : Scanner} (hm : name what s = .ok m t)
    (h : Midway B z u A (f m) t) :
    Midway B z u A (do if ← sees isLetter then let m ← name what; f m else y) s :=
  .later (.sees _) rfl <| .yes (isLetter_of_name hm) <| .later (.name _) hm h

/-- What is made of the result of a step does not depend on where the step was taken. -/
theorem made {x : Scan γ} {C : γ → γ → Prop} {f : γ → α} (h : Midway B z u C x s)
    (hf : ∀ c c', C c c' → A (f c) (f c')) : Midway B z u A (f <$> x) s :=
  .first (f := fun c => Pure.pure (f c)) h fun c c' hc => .pure (hf c c' hc)

end Midway

section Calls

variable {α β : Type} {readInner : ReadInner} {n : Nat} {s t : Scanner} {c : Call α} {d : Call β}

/-- What a call makes of an expression is as it stands in its definition: the steps before do not depend on text
behind them, and those after it go on alike. -/
theorem Carries.midway (hinner : LikeInner readInner readInner) (h : Carries readInner n c s d t) :
    Midway d.Like (d.run readInner n) t c.Like (c.run readInner (n + 1)) s := by
  have hin : SameInner false readInner readInner := fun _ => hinner
  have hprimary (b : Bool) {s : Scanner} : Steady (primary readInner n b) s := .call (.primary b) trivial
  have hunary {s : Scanner} : Steady (unary readInner n) s := .call .unary trivial
  have hblanks {x : Scan Expr} {s : Scanner} (h : Midway d.Like (d.run readInner n) t (LikeExpr false) x s) :
      Midway d.Like (d.run readInner n) t (LikeExpr false) (do let e ← x; skipBlanks; return e) s :=
    .first h fun _ _ he => alike_then alike_skipBlanks fun _ => .pure he
  cases h with
  | exprUnary =>
    exact .first .here fun a a' ha => alike_then alike_operator fun next =>
      .bind (alike_climb hin n ha next 1) fun _ _ h => .pure h.1
  | exprClimb ha hnext =>
    exact .later hunary ha <| .later .operator hnext <| .first .here fun _ _ h => .pure h.1
  | climbUnary h =>
    refine .no (Nat.not_lt.2 h) <| .first .here fun b b' hb => alike_then alike_operator fun next => ?_
    refine .bind (alike_climbRight hin n hb next _) fun p p' hp => ?_
    obtain ⟨b, next⟩ := p
    obtain ⟨b', next'⟩ := p'
    obtain ⟨hb, rfl⟩ := hp
    exact alike_climb hin n (.binary (.refl _) hb) next _
  | climbRight h hb hnext =>
    refine .no (Nat.not_lt.2 h) <| .later hunary hb <| .later .operator hnext <| .first .here fun p p' hp => ?_
    obtain ⟨b, next⟩ := p
    obtain ⟨b', next'⟩ := p'
    obtain ⟨hb, rfl⟩ := hp
    exact alike_climb hin n (.binary (.refl _) hb) next _
  | @climbOn s t u v a b b' op next next' least h hb hnext hright =>
    have hsteady : Steady (Scan.climbRight readInner n b next op.precedence) u :=
      .call (.climbRight b next op.precedence) trivial
    exact .no (Nat.not_lt.2 h) <| .later hunary hb <| .later .operator hnext <| .later hsteady hright .here
  | rightClimb h =>
    refine .no (Nat.not_le.2 h) <| .first .here fun p p' hp => ?_
    obtain ⟨b, next⟩ := p
    obtain ⟨b', next'⟩ := p'
    obtain ⟨hb, rfl⟩ := hp
    exact alike_climbRight hin n hb next _
  | @rightOn s t b b' op next bound h hb =>
    have hsteady : Steady (climb readInner n b (some op) op.precedence) s :=
      .call (.climb b (some op) op.precedence) trivial
    exact .no (Nat.not_le.2 h) <| .later hsteady hb .here
  | unaryExpr hc =>
    refine .skipsBlanks <| .peeks hc <| .skipsOne <| .first .here fun e e' he => ?_
    exact alike_then (alike_expect _) fun _ => alike_then alike_skipBlanks fun _ => .pure he
  | unaryUnary hc =>
    refine .skipsBlanks <| .peeks hc <| .skips <| .later .here rfl <| .first .here fun e e' he => ?_
    exact alike_then alike_skipBlanks fun _ => .pure (.negation (.refl _) he)
  | unaryPrimary hopen hnot =>
    refine .skipsBlanks <| .peeks rfl ?_
    split
    · exact absurd ‹_› hopen
    · exact absurd ‹_› hnot
    · exact .here
  | primaryRequired hc => exact .skipsBlanks <| .peeks hc <| .skips <| hblanks .here
  | primaryList hc => exact .skipsBlanks <| .peeks hc <| hblanks .here
  | primaryWord hc hletter =>
    refine .skipsBlanks <| .peeks hc ?_
    have hother {c d : Char} (hletter : isLetter c = true) (hd : isLetter d = false)
        (heq : some c = some d) : False := by
      obtain rfl := Option.some.inj heq
      rw [hletter] at hd
      cases hd
    split
    · exact (hother hletter rfl ‹_›).elim
    · exact (hother hletter rfl ‹_›).elim
    · exact (hother hletter rfl ‹_›).elim
    · exact (hother hletter rfl ‹_›).elim
    · exact (hother hletter rfl ‹_›).elim
    · rename_i heq
      obtain rfl := Option.some.inj heq
      exact .no (by simp [isDigit_of_isLetter hletter]) <| .yes hletter <| hblanks .here
    · exact (Option.some_ne_none _ ‹_›).elim
  | wordUnary hw =>
    refine .later (.name _) hw <| .no (by decide) <| .no (by decide) <| .yes rfl <| .later .here rfl <| ?_
    exact .made .here fun _ _ he => .negation (.refl _) he
  | listFirst hc =>
    refine .skipsOne <| .peeks rfl <| .no hc <| .first .here fun a a' ha => alike_match fun c _ => alike_ite ?_ ?_
    · exact alike_then alike_skip fun _ => alike_match fun c _ => alike_unless <|
        alike_then alike_nextNonBlank fun _ => .bind (alike_primary hin n false) fun _ _ hb =>
          alike_match fun c _ => alike_unless <| alike_then alike_nextNonBlank fun _ =>
            .bind alike_here fun p p' _ => .pure (.range (p.like_any p') ha hb)
    · exact .bind (alike_elements hin n) fun _ _ hes => alike_match fun c _ => alike_unless <|
        alike_then alike_skip fun _ => .bind alike_here fun p p' _ => .pure (.list (p.like_any p') (.cons ha hes))
  | listLast hc ha hdot hdots =>
    refine .skipsOne <| .peeks rfl <| .no hc <| .later (hprimary _) ha <| .peeks hdot <| .yes rfl <| .skips <| ?_
    refine .peeks hdots <| .no (by simp) <| .skipsOne <| .first .here fun _ _ hb => ?_
    exact alike_match fun c _ => alike_unless <| alike_then alike_nextNonBlank fun _ =>
      .bind alike_here fun p p' _ => .pure (.range (p.like_any p') (.refl _) hb)
  | listElements hc ha hdot =>
    refine .skipsOne <| .peeks rfl <| .no hc <| .later (hprimary _) ha <| .peeks rfl <| .no hdot <| ?_
    refine .first .here fun _ _ hes => alike_match fun c _ => alike_unless <| alike_then alike_skip fun _ => ?_
    exact .bind alike_here fun p p' _ => .pure (.list (p.like_any p') (.cons (.refl _) hes))
  | elementsFirst hc =>
    exact .peeks hc <| .yes rfl <| .skips <| .first .here fun _ _ he =>
      .map (alike_elements hin n) fun _ _ hes => .cons he hes
  | elementsOn hc ha =>
    exact .peeks hc <| .yes rfl <| .skips <| .later (hprimary _) ha <| .made .here fun _ _ hes =>
      .cons (.refl _) hes
  | requiredReference hquiet =>
    refine .peeks rfl <| .maySkip ?_
    rw [hquiet]
    refine .peeks rfl ?_
    split
    · refine .skips <| .first .here fun _ _ he => ?_
      exact alike_then (alike_expect _) fun _ => .pure he
    · exact .here
  | referenceSuffixes hx =>
    exact .later (.name _) hx <| .later .here rfl <| .made .here fun _ _ hss => .reference (.refl _) hss
  | suffixesArguments hdot hm hopen =>
    refine .peeks hdot <| .skips <| .named hm <| .peeks hopen <| .yes rfl <| ?_
    exact .first (.made .here fun _ _ hes => .method hes) fun _ _ hs =>
      .map (alike_suffixes hin n) fun _ _ hss => .cons hs hss
  | suffixesMember hdot hm hopen =>
    refine .peeks hdot <| .skips <| .named hm <| .peeks rfl <| .no hopen <| .later .pure rfl <| ?_
    exact .made .here fun _ _ hss => .cons (.refl _) hss
  | suffixesMethod hdot hm hopen hargs =>
    refine .peeks hdot <| .skips <| .named hm <| .peeks hopen <| .yes rfl <| ?_
    refine .later (.map (.call .arguments (Scanner.left_pos hopen))) (bind_eq_ok.2 ⟨_, _, hargs, rfl⟩) <| ?_
    exact .made .here fun _ _ hss => .cons (.refl _) hss
  | suffixesKey hc =>
    refine .peeks hc <| .skips <| .first .here fun _ _ he => alike_match fun c _ => alike_unless <| ?_
    exact alike_then alike_skip fun _ => .map (alike_suffixes hin n) fun _ _ hss => .cons (.index he) hss
  | suffixesIndex hc hkey hclose =>
    refine .peeks hc <| .skips <| .later (hprimary _) hkey <| .peeks hclose <| .no (by simp) <| .skips <| ?_
    exact .made .here fun _ _ hss => .cons (.refl _) hss
  | argumentsFirst hc =>
    refine .skipsOne <| .peeks rfl <| .no hc <| .first .here fun _ _ he => ?_
    exact .bind (alike_moreArguments hin n) fun _ _ hes => alike_match fun c _ => alike_unless <|
      alike_then alike_skip fun _ => .pure (.cons he hes)
  | argumentsMore hc ha =>
    refine .skipsOne <| .peeks rfl <| .no hc <| .later (hprimary _) ha <| .first .here fun _ _ hes => ?_
    exact alike_match fun c _ => alike_unless <| alike_then alike_skip fun _ => .pure (.cons (.refl _) hes)
  | moreFirst hc =>
    exact .peeks hc <| .yes rfl <| .skipsOne <| .first .here fun _ _ he =>
      .map (alike_moreArguments hin n) fun _ _ hes => .cons he hes
  | moreOn hc ha =>
    exact .peeks hc <| .yes rfl <| .skipsOne <| .later (hprimary _) ha <| .made .here fun _ _ hes =>
      .cons (.refl _) hes
  | callFirst hc =>
    exact .skipsBlanks <| .peeks rfl <| .no hc <| .first .here fun _ _ he => alike_match fun _ _ => alike_optional <|
      .map (alike_callArguments hin n) fun _ _ hes => .cons he hes
  | callOn hc ha =>
    refine .skipsBlanks <| .peeks rfl <| .no hc <| .later (hprimary _) ha <| .peeks rfl <| .maySkip ?_
    exact .made .here fun _ _ hes => .cons (.refl _) hes

theorem Within.midway {m : Nat} {u : Scanner} (hinner : LikeInner readInner readInner)
    (h : Within readInner m d u n c s) : Midway d.Like (d.run readInner m) u c.Like (c.run readInner n) s := by
  induction h with
  | here => exact .here
  | further h _ ih => exact ih.trans (h.midway hinner)

end Calls

end Scan

end Stencil
