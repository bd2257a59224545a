import Stencil.Proofs.Course

/-!
# The course of reading expressions

Each reader of expressions, and each reader of a row, goes through its own text with calls that have less
work than it: `Call.course`. A reader that calls itself has taken a character before, and a reader that
calls another at the same place has the higher rank.
-/

namespace Stencil

open Stencil.Text

namespace Scan

variable {readInner : ReadInner} {n w : Nat} {s : Scanner}

/-! ### Calls -/

namespace Course

section Results

variable {Φ : Expr → Scanner → Prop}

theorem expr (hw : 8 * s.left + 3 < w) (h : ∀ e, ∀ t : Scanner, t.left < s.left → Φ e t) :
    Course readInner n w (expr readInner n) s Φ :=
  .call .expr trivial hw h

theorem unary (hw : 8 * s.left + 2 < w) (h : ∀ e, ∀ t : Scanner, t.left < s.left → Φ e t) :
    Course readInner n w (unary readInner n) s Φ :=
  .call .unary trivial hw h

theorem primary {nullAllowed : Bool} (hw : 8 * s.left + 1 < w)
    (h : ∀ e, ∀ t : Scanner, t.left < s.left → Φ e t) :
    Course readInner n w (primary readInner n nullAllowed) s Φ :=
  .call (.primary nullAllowed) trivial hw h

theorem word {nullAllowed : Bool} (hw : 8 * s.left < w)
    (h : ∀ e, ∀ t : Scanner, t.left < s.left → Φ e t) :
    Course readInner n w (word readInner n nullAllowed) s Φ :=
  .call (.word nullAllowed) trivial hw h

theorem listOrRange (hs : 0 < s.left) (hw : 8 * s.left < w)
    (h : ∀ e, ∀ t : Scanner, t.left < s.left → Φ e t) :
    Course readInner n w (listOrRange readInner n) s Φ :=
  .call .listOrRange hs hw h

theorem required (hw : 8 * s.left + 1 < w) (h : ∀ e, ∀ t : Scanner, t.left < s.left → Φ e t) :
    Course readInner n w (required readInner n) s Φ :=
  .call .required trivial hw h

theorem reference {quiet : Bool} (hw : 8 * s.left < w)
    (h : ∀ e, ∀ t : Scanner, t.left < s.left → Φ e t) :
    Course readInner n w (reference readInner n quiet) s Φ :=
  .call (.reference quiet) trivial hw h

end Results

section Rows

variable {Φ : List Expr → Scanner → Prop}

theorem elements (hw : 8 * s.left < w) (h : ∀ es, ∀ t : Scanner, t.left ≤ s.left → Φ es t) :
    Course readInner n w (elements readInner n) s Φ :=
  .call .elements trivial hw h

theorem suffixes {Φ : List Suffix → Scanner → Prop} (hw : 8 * s.left < w)
    (h : ∀ ss, ∀ t : Scanner, t.left ≤ s.left → Φ ss t) :
    Course readInner n w (suffixes readInner n) s Φ :=
  .call .suffixes trivial hw h

theorem arguments (hs : 0 < s.left) (hw : 8 * s.left < w)
    (h : ∀ es, ∀ t : Scanner, t.left ≤ s.left → Φ es t) :
    Course readInner n w (arguments readInner n) s Φ :=
  .call .arguments hs hw h

theorem moreArguments (hw : 8 * s.left < w) (h : ∀ es, ∀ t : Scanner, t.left ≤ s.left → Φ es t) :
    Course readInner n w (moreArguments readInner n) s Φ :=
  .call .moreArguments trivial hw h

theorem callArguments (hw : 8 * s.left + 2 < w) (h : ∀ es, ∀ t : Scanner, t.left ≤ s.left → Φ es t) :
    Course readInner n w (callArguments readInner n) s Φ :=
  .call .callArguments trivial hw h

theorem parameters {Φ : List String → Scanner → Prop} (hw : 8 * s.left < w)
    (h : ∀ ps, ∀ t : Scanner, t.left ≤ s.left → Φ ps t) :
    Course readInner n w (parameters n) s Φ :=
  .call .parameters trivial hw h

end Rows

/-- Going on after an operand takes nothing if the operator does not apply. -/
theorem climb {lhs : Expr} {next : Option Operator} {least : Nat}
    {Φ : Expr × Option Operator → Scanner → Prop} (hw : 8 * s.left + 3 < w)
    (h : ∀ p, ∀ t : Scanner, t.left + (Call.climb lhs next least).taken ≤ s.left → Φ p t) :
    Course readInner n w (climb readInner n lhs next least) s Φ :=
  .call (.climb lhs next least) trivial hw h

theorem climbRight {rhs : Expr} {next : Option Operator} {bound : Nat}
    {Φ : Expr × Option Operator → Scanner → Prop} (hw : 8 * s.left + 4 < w)
    (h : ∀ p, ∀ t : Scanner, t.left ≤ s.left → Φ p t) :
    Course readInner n w (climbRight readInner n rhs next bound) s Φ :=
  .call (.climbRight rhs next bound) trivial hw h

end Course

/-! ### The readers -/

theorem course_expr :
    Course readInner n (8 * s.left + 3) (expr readInner (n + 1)) s fun _ t => t.left < s.left := by
  refine .seq (.unary (by omega) fun lhs t ht => .seq (.operator fun next u hu => .seq ?_))
  exact .climb (by omega) fun _ v hv => .pure (by omega)

/-- An operator that is applied takes its operand at least. -/
theorem course_climb (lhs : Expr) (next : Option Operator) (least : Nat) :
    Course readInner n (8 * s.left + 3) (climb readInner (n + 1) lhs next least) s
      fun _ t => t.left + (Call.climb lhs next least).taken ≤ s.left := by
  cases next with
  | none => exact .pure (Nat.le_refl _)
  | some op =>
    refine .ite (fun hop => .pure ?_) fun hop => ?_
    · simp [Call.taken, Nat.not_le.2 hop]
    have htaken : (Call.climb lhs (some op) least).taken = 1 := by
      simp [Call.taken, Nat.le_of_not_lt hop]
    rw [htaken]
    refine .seq (.unary (by omega) fun rhs t ht => .seq (.operator fun next u hu => ?_))
    refine .seq (.climbRight (by omega) fun p v hv => ?_)
    obtain ⟨rhs, next⟩ := p
    exact .climb (by omega) fun _ x hx => by omega

theorem course_climbRight (rhs : Expr) (next : Option Operator) (bound : Nat) :
    Course readInner n (8 * s.left + 4) (climbRight readInner (n + 1) rhs next bound) s
      fun _ t => t.left ≤ s.left := by
  cases next with
  | none => exact .pure (Nat.le_refl _)
  | some op =>
    refine .ite (fun _ => .pure (Nat.le_refl _)) fun _ => ?_
    have htaken : (Call.climb rhs (some op) op.precedence).taken = 1 := by simp [Call.taken]
    refine .seq (.climb (by omega) fun p t ht => ?_)
    obtain ⟨rhs', next⟩ := p
    exact .climbRight (by omega) fun _ u hu => by omega

theorem course_unary :
    Course readInner n (8 * s.left + 2) (unary readInner (n + 1)) s fun _ t => t.left < s.left := by
  refine .seq (.skipBlanks fun t ht => .seq (.peek ?_))
  split
  · have hpos := Scanner.left_pos ‹t.current = _›
    refine .seq (.nextNonBlank fun u hu => .seq (.expr (by omega) fun e v hv => ?_))
    exact .seq (.expect fun x hx => .seq (.skipBlanks fun y hy => .pure (by omega)))
  · have hpos := Scanner.left_pos ‹t.current = _›
    have hskip := t.left_advance
    refine .seq (.skip (.seq (.here (.seq (.unary (by omega) fun e u hu => ?_)))))
    exact .seq (.skipBlanks fun v hv => .pure (by omega))
  · exact .primary (by omega) fun e u hu => by omega

theorem course_primary (nullAllowed : Bool) :
    Course readInner n (8 * s.left + 1) (primary readInner (n + 1) nullAllowed) s
      fun _ t => t.left < s.left := by
  refine .seq (.skipBlanks fun t ht => .seq (.peek ?_))
  have hskip := t.left_advance
  -- the blanks after an operand belong to it
  have hend {x : Scan Expr} {u : Scanner}
      (hx : Course readInner n (8 * s.left + 1) x u fun _ v => v.left < s.left) :
      Course readInner n (8 * s.left + 1) (do let e ← x; skipBlanks; return e) u
        fun _ v => v.left < s.left :=
    .bind hx fun e v hv => .seq (.skipBlanks fun v' hv' => .pure (by omega))
  dsimp only
  split
  · have hpos := Scanner.left_pos ‹t.current = _›
    exact .seq (.skip (hend (.required (by omega) fun e u hu => by omega)))
  · have hpos := Scanner.left_pos ‹t.current = _›
    exact hend (.text hpos (by omega) fun e u hu => by omega)
  · have hpos := Scanner.left_pos ‹t.current = _›
    exact hend (.text hpos (by omega) fun e u hu => by omega)
  · exact .seq (.skip (hend (.integer fun e u hu => by omega)))
  · have hpos := Scanner.left_pos ‹t.current = _›
    exact hend (.listOrRange hpos (by omega) fun e u hu => by omega)
  · exact .ite (fun _ => hend (.integer fun e u hu => by omega)) fun _ =>
      .ite (fun _ => hend (.word (by omega) fun e u hu => by omega)) fun _ => hend .fail
  · exact hend .fail

theorem course_word (nullAllowed : Bool) :
    Course readInner n (8 * s.left) (word readInner (n + 1) nullAllowed) s fun _ t => t.left < s.left := by
  refine .seq (.name fun x t ht => ?_)
  have hliteral {v : Literal} : Course readInner n (8 * s.left) (do return Expr.literal (← here) v) t
      fun _ u => u.left < s.left :=
    .seq (.here (.pure ht))
  refine .ite (fun _ => hliteral) fun _ => .ite (fun _ => hliteral) fun _ => .ite (fun _ => ?_) fun _ =>
    .ite (fun _ => hliteral) fun _ => .fail
  exact .seq (.here (.seq (.unary (by omega) fun e u hu => .pure (by omega))))

theorem course_listOrRange (hs : 0 < s.left) :
    Course readInner n (8 * s.left) (listOrRange readInner (n + 1)) s fun _ t => t.left < s.left := by
  refine .seq (.nextNonBlank fun t ht => .seq (.peek (.ite (fun _ => ?_) fun _ => ?_)))
  · have hskip := t.left_advance
    exact .seq (.skip (.seq (.here (.pure (by omega)))))
  refine .seq (.primary (by omega) fun first u hu => .seq (.peek (.ite (fun hdot => ?_) fun _ => ?_)))
  · have hskip := u.left_advance
    refine .seq (.skip (.seq (.peek (.ite (fun _ => .seq .fail) fun _ => ?_))))
    refine .seq (.nextNonBlank fun v hv => .seq (.primary (by omega) fun last x hx => ?_))
    refine .seq (.peek (.ite (fun _ => .seq .fail) fun _ => .seq (.nextNonBlank fun y hy => ?_)))
    exact .seq (.here (.pure (by omega)))
  · refine .seq (.elements (by omega) fun others v hv => ?_)
    refine .seq (.peek (.ite (fun _ => .seq .fail) fun _ => ?_))
    have hskip := v.left_advance
    exact .seq (.skip (.seq (.here (.pure (by omega)))))

theorem course_elements :
    Course readInner n (8 * s.left) (elements readInner (n + 1)) s fun _ t => t.left ≤ s.left := by
  refine .seq (.peek (.ite (fun hcomma => ?_) fun _ => .pure (Nat.le_refl _)))
  have hpos := Scanner.left_pos hcomma
  have hskip := s.left_advance
  refine .seq (.skip (.seq (.primary (by omega) fun e t ht => .seq ?_)))
  exact .elements (by omega) fun es u hu => .pure (by omega)

theorem course_required :
    Course readInner n (8 * s.left + 1) (required readInner (n + 1)) s fun _ t => t.left < s.left := by
  have hreference {t : Scanner} (ht : t.left ≤ s.left) : Course readInner n (8 * s.left + 1)
      (do
        if (← peek) = some '{' then
          skip
          let e ← reference readInner n false
          expect '}'
          return e
        else reference readInner n false) t fun _ u => u.left < s.left := by
    have hskip := t.left_advance
    refine .seq (.peek (.ite (fun _ => ?_) fun _ => .reference (by omega) fun e u hu => by omega))
    refine .seq (.skip (.seq (.reference (by omega) fun e u hu => ?_)))
    exact .seq (.expect fun v hv => .pure (by omega))
  have hskip := s.left_advance
  exact .seq (.peek (.ite (fun _ => .seq (.skip (hreference (by omega)))) fun _ => hreference (Nat.le_refl _)))

theorem course_reference (quiet : Bool) :
    Course readInner n (8 * s.left) (reference readInner (n + 1) quiet) s fun _ t => t.left < s.left := by
  refine .seq (.name fun x t ht => .seq (.here (.seq ?_)))
  exact .suffixes (by omega) fun ss u hu => .pure (by omega)

/-- The only character that is ever put back is a period that does not belong to a reference. -/
theorem course_suffixes :
    Course readInner n (8 * s.left) (suffixes readInner (n + 1)) s fun _ t => t.left ≤ s.left := by
  refine .seq (.peek ?_)
  have hskip := s.left_advance
  have hmore {t : Scanner} {u : Suffix} (ht : t.left < s.left) : Course readInner n (8 * s.left)
      (do return u :: (← suffixes readInner n)) t fun _ v => v.left ≤ s.left :=
    .seq (.suffixes (by omega) fun ss v hv => .pure (by omega))
  split
  · have hdot := ‹s.current = _›
    have hpos := Scanner.left_pos hdot
    refine .lookPast hdot (fun _ => ?_) fun _ => .pure ?_
    · refine .seq (.name fun m t ht => .seq (.peek (.ite (fun hopen => ?_) fun _ => .seq (.pure ?_))))
      · refine .seq (.map (.arguments (Scanner.left_pos hopen) (by omega) fun es u hu => ?_))
        exact hmore (by omega)
      · exact hmore (by omega)
    · obtain ⟨cs, hcs⟩ := List.head?_eq_some_iff.1 (s.current_eq ▸ hdot)
      rw [Scanner.left, Scanner.pending_putBack_advance hcs, ← hcs]
      exact Nat.le_refl _
  · have hpos := Scanner.left_pos ‹s.current = _›
    refine .seq (.skip (.seq (.primary (by omega) fun key t ht => ?_)))
    have hclose := t.left_advance
    exact .seq (.peek (.ite (fun _ => .seq .fail) fun _ => .seq (.skip (hmore (by omega)))))
  · exact .pure (Nat.le_refl _)

theorem course_arguments (hs : 0 < s.left) :
    Course readInner n (8 * s.left) (arguments readInner (n + 1)) s fun _ t => t.left ≤ s.left := by
  refine .seq (.nextNonBlank fun t ht => .seq (.peek (.ite (fun _ => ?_) fun _ => ?_)))
  · have hskip := t.left_advance
    exact .seq (.skip (.pure (by omega)))
  refine .seq (.primary (by omega) fun first u hu => .seq (.moreArguments (by omega) fun es v hv => ?_))
  have hskip := v.left_advance
  exact .seq (.peek (.ite (fun _ => .seq .fail) fun _ => .seq (.skip (.pure (by omega)))))

theorem course_moreArguments :
    Course readInner n (8 * s.left) (moreArguments readInner (n + 1)) s fun _ t => t.left ≤ s.left := by
  refine .seq (.peek (.ite (fun hcomma => ?_) fun _ => .pure (Nat.le_refl _)))
  have hpos := Scanner.left_pos hcomma
  refine .seq (.nextNonBlank fun t ht => .seq (.primary (by omega) fun e u hu => .seq ?_))
  exact .moreArguments (by omega) fun es v hv => .pure (by omega)

theorem course_callArguments :
    Course readInner n (8 * s.left + 2) (callArguments readInner (n + 1)) s
      fun _ t => t.left ≤ s.left := by
  refine .seq (.skipBlanks fun t ht => .seq (.peek (.ite (fun _ => ?_) fun _ => ?_)))
  · have hskip := t.left_advance
    exact .seq (.skip (.pure (by omega)))
  have hmore {e : Expr} {u : Scanner} (hu : u.left < s.left) : Course readInner n (8 * s.left + 2)
      (do return e :: (← callArguments readInner n)) u fun _ v => v.left ≤ s.left :=
    .seq (.callArguments (by omega) fun es v hv => .pure (by omega))
  refine .seq (.primary (by omega) fun e u hu => .seq (.peek ?_))
  have hskip := u.left_advance
  exact .ite (fun _ => .seq (.skip (hmore (by omega)))) fun _ => hmore (by omega)

theorem course_parameters :
    Course readInner n (8 * s.left) (parameters (n + 1)) s fun _ t => t.left ≤ s.left := by
  refine .seq (.skipBlanks fun t ht => .seq (.peek (.ite (fun _ => ?_) fun _ => .seq (.peek ?_))))
  · have hskip := t.left_advance
    exact .seq (.skip (.pure (by omega)))
  have hparameter {u : Scanner} (hu : u.left ≤ s.left) : Course readInner n (8 * s.left)
      (do
        if (← peek) ≠ some '$' then fail .parameter
        skip
        let p ← name "Macro parameter name"
        return p :: (← parameters n)) u fun _ v => v.left ≤ s.left := by
    refine .seq (.peek (.ite (fun _ => .seq .fail) fun hdollar => ?_))
    have hpos := Scanner.left_pos (not_not.1 hdollar)
    have hskip := u.left_advance
    refine .seq (.skip (.seq (.name fun p v hv => .seq ?_)))
    exact .parameters (by omega) fun ps x hx => .pure (by omega)
  have hskip := t.left_advance
  exact .ite (fun _ => .seq (.skip (.seq (.skipBlanks fun u hu => hparameter (by omega)))))
    fun _ => hparameter ht

/-- The course of every call: what it calls has less work, and it takes what it is to take at least. -/
theorem Call.course {α : Type} (c : Call α) (hs : c.Ready s) :
    Course readInner n (c.work s) (c.run readInner (n + 1)) s fun _ t => t.left + c.taken ≤ s.left := by
  cases c with
  | expr => exact course_expr
  | climb lhs next least => exact course_climb lhs next least
  | climbRight rhs next bound => exact course_climbRight rhs next bound
  | unary => exact course_unary
  | primary nullAllowed => exact course_primary nullAllowed
  | word nullAllowed => exact course_word nullAllowed
  | listOrRange => exact course_listOrRange hs
  | elements => exact course_elements
  | required => exact course_required
  | reference quiet => exact course_reference quiet
  | suffixes => exact course_suffixes
  | arguments => exact course_arguments hs
  | moreArguments => exact course_moreArguments
  | callArguments => exact course_callArguments
  | parameters => exact course_parameters

end Scan

/-! ### Fuel -/

/-- Whether a step from a state gives a result that satisfies `Φ`, or refuses the text. It does not run out
of fuel. -/
def Settles {σ α : Type} (x : EStateM ParseFailure σ α) (s : σ) (Φ : α → σ → Prop) : Prop :=
  match x s with
  | .ok a t => Φ a t
  | .error (.error _) _ => True
  | .error .exhausted _ => False

theorem Settles.bind {σ α β : Type} {x : EStateM ParseFailure σ β} {f : β → EStateM ParseFailure σ α}
    {s : σ} {Ψ : β → σ → Prop} {Φ : α → σ → Prop} (hx : Settles x s Ψ)
    (hf : ∀ b t, Ψ b t → Settles (f b) t Φ) : Settles (x >>= f) s Φ := by
  show match EStateM.bind x f s with
    | .ok a t => Φ a t
    | .error (.error _) _ => True
    | .error .exhausted _ => False
  rw [EStateM.bind]
  rw [Settles] at hx
  split at hx
  · rename_i b t hb
    rw [hb]
    exact hf b t hx
  · rename_i e t hb
    rw [hb]
    trivial
  · exact hx.elim

/-- Whether the insides of text literals, which hold no double quote, are read without running out of
fuel. -/
def ReadInner.Ends (readInner : ReadInner) : Prop :=
  ∀ name text, '"' ∉ text.toList → readInner name text ≠ .error .exhausted

namespace Scan

variable {readInner : ReadInner} {n w : Nat} {s : Scanner}

/-- A step runs out of fuel only through what it calls. -/
theorem Course.settles {α : Type} {x : Scan α} {Φ : α → Scanner → Prop} (hinner : readInner.Ends)
    (hcalls : ∀ {β : Type} (c : Call β) (t : Scanner), c.Ready t → c.work t < w →
      Settles (c.run readInner n) t fun _ u => u.left + c.taken ≤ t.left)
    (h : Course readInner n w x s Φ) : Settles x s Φ := by
  induction h with
  | pure h => exact h
  | bind _ _ ihx ihf => exact .bind ihx ihf
  | get h => exact h
  | take _ _ _ h => exact h
  | @lookPast α p x y s Φ hs _ _ ihx ihy =>
    refine .bind (Ψ := fun _ t => t = s.advance) rfl fun _ t ht => ?_
    refine .bind (Ψ := fun b u => b = t.current.any p ∧ u = t) ⟨rfl, rfl⟩ fun b u hb => ?_
    obtain ⟨rfl, rfl⟩ := hb
    subst ht
    split
    · exact ihx ‹_›
    · refine .bind (Ψ := fun _ v => v = s.advance.putBack '.') rfl fun _ v hv => ?_
      rw [hv]
      exact ihy (eq_false_of_ne_true ‹_›)
  | fail => trivial
  | refuse => trivial
  | @inner name text s Φ hquote _ h =>
    have hne := hinner name text hquote
    match hx : readInner name text with
    | .ok ns => exact h ns
    | .error (.error e) => trivial
    | .error .exhausted => exact absurd hx hne
  | @call α s Φ c hr hw h =>
    have hc := hcalls c s hr hw
    rw [Settles] at hc ⊢
    split at hc
    · exact h _ _ hc
    · trivial
    · exact hc

/-- A call with more fuel than work does not run out of it. -/
theorem Call.settles (hinner : readInner.Ends) {α : Type} (c : Call α) (hs : c.Ready s)
    (hn : c.work s < n) : Settles (c.run readInner n) s fun _ t => t.left + c.taken ≤ s.left := by
  induction n generalizing α s with
  | zero => omega
  | succ n ih => exact (c.course hs).settles hinner fun c' t hr hw => ih c' hr (by omega)

end Scan

end Stencil
