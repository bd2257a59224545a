import Stencil.Proofs.Moments

/-!
# Chains of suffixes

A reference takes the longest chain of suffixes that the text spells: `Chain`. To see where the chain ends
the reader may look past a period, and the scanner it leaves is then as good as one that did not look:
`Scanner.LookedPast`. So what follows a reference is read as that remaining text, also when it begins with
periods: `Document.reading_keeps_characters`.
-/

namespace Stencil

open Stencil.Text

/-! ### Looking past a period -/

/-- Whether the second scanner is the first, or it after a look past the period that it stands at. -/
def Scanner.LookedPast (v t : Scanner) : Prop :=
  t = v ∨ v.current = some '.' ∧ t = v.advance.putBack '.'

namespace Scanner.LookedPast

variable {v t : Scanner}

theorem current_eq (h : v.LookedPast t) : t.current = v.current := by
  rcases h with rfl | ⟨hv, rfl⟩
  · rfl
  · exact hv.symm

theorem pending_eq (h : v.LookedPast t) : t.pending = v.pending := by
  rcases h with rfl | ⟨hv, rfl⟩
  · rfl
  · exact Tidy.pending_period hv

/-- The period is taken to the same scanner. -/
theorem advance_eq (h : v.LookedPast t) : t.advance = v.advance := by
  rcases h with rfl | ⟨hv, rfl⟩
  · rfl
  · have hslot : v.advance.slot = none := slot_advance (by simp [hv])
    generalize v.advance = w at hslot
    obtain ⟨resource, current, slot, rest, line⟩ := w
    subst hslot
    rfl

/-- No blank is a period. -/
theorem skipBlanks (h : v.LookedPast t) : v.skipBlanks.LookedPast t.skipBlanks := by
  rcases h with rfl | ⟨hv, rfl⟩
  · exact .inl rfl
  · have hstay {s : Scanner} (hs : s.current = some '.') : s.skipBlanks = s := by
      obtain ⟨cs, hcs⟩ := List.head?_eq_some_iff.1 (s.current_eq ▸ hs)
      have hnone : s.pending.takeWhile isBlank = [] := by
        rw [hcs]
        rfl
      rw [Scanner.skipBlanks, takeWhile, hnone]
      rfl
    rw [hstay hv, hstay rfl]
    exact .inr ⟨hv, rfl⟩

end Scanner.LookedPast

namespace Scan

variable {readInner : ReadInner} {α β : Type} {s : Scanner} {Φ : α → Scanner → Prop}

/-! ### Results -/

/-- Whether a result of a step from a scanner satisfies `Φ`, with the scanner it leaves. -/
def Gives (x : Scan α) (s : Scanner) (Φ : α → Scanner → Prop) : Prop :=
  ∀ a t, x s = .ok a t → Φ a t

namespace Gives

theorem pure {a : α} (h : Φ a s) : Gives (Pure.pure a) s Φ := by
  rintro _ _ ⟨⟩
  exact h

theorem seq {x : Scan β} {f : β → Scan α} (h : Gives x s fun b t => Gives (f b) t Φ) :
    Gives (x >>= f) s Φ := by
  intro a t hx
  change EStateM.bind x f s = _ at hx
  rw [EStateM.bind] at hx
  split at hx
  · exact h _ _ ‹_› a t hx
  · cases hx

theorem map {x : Scan β} {f : β → α} (h : Gives x s fun b t => Φ (f b) t) : Gives (f <$> x) s Φ :=
  seq (f := fun b => Pure.pure (f b)) fun b t hx => pure (h b t hx)

theorem ite {c : Prop} [Decidable c] {x y : Scan α} (hx : c → Gives x s Φ) (hy : ¬c → Gives y s Φ) :
    Gives (if c then x else y) s Φ := by
  split
  · exact hx ‹_›
  · exact hy ‹_›

theorem peek {Φ : Option Char → Scanner → Prop} (h : Φ s.current s) : Gives peek s Φ := by
  rintro _ _ ⟨⟩
  exact h

theorem here {Φ : Place → Scanner → Prop} (h : Φ s.place s) : Gives here s Φ := by
  rintro _ _ ⟨⟩
  exact h

theorem sees {p : Char → Bool} {Φ : Bool → Scanner → Prop} (h : Φ (s.current.any p) s) :
    Gives (sees p) s Φ := by
  rintro _ _ ⟨⟩
  exact h

theorem skip {Φ : Unit → Scanner → Prop} (h : Φ () s.advance) : Gives skip s Φ := by
  rintro _ _ ⟨⟩
  exact h

theorem putBack {c : Char} {Φ : Unit → Scanner → Prop} (h : Φ () (s.putBack c)) :
    Gives (putBack c) s Φ := by
  rintro _ _ ⟨⟩
  exact h

theorem fail {cause : ParseCause} : Gives (fail cause) s Φ :=
  nofun

end Gives

/-! ### Chains -/

/-- Whether characters begin with a suffix of a reference. -/
def beginsSuffix : List Char → Bool
  | '[' :: _ => true
  | '.' :: c :: _ => isLetter c
  | _ => false

/-- The chain that stands at the beginning of the first characters, up to the second: it ends where no
suffix begins, each name is as long as it can be, and a parenthesis after a name makes it a method. -/
inductive Chain (readInner : ReadInner) : List Suffix → List Char → List Char → Prop
  | stop {q : List Char} (hq : beginsSuffix q = false) : Chain readInner [] q q
  | member {c : Char} {cs p q : List Char} {ss : List Suffix} (hc : isLetter c = true)
      (hcs : ∀ d ∈ cs, isNameChar d = true) (hp : ∀ d ∈ p.head?, isNameChar d = false)
      (hopen : p.head? ≠ some '(') (h : Chain readInner ss p q) :
      Chain readInner (.member (String.ofList (c :: cs)) :: ss) ('.' :: c :: cs ++ p) q
  | method {c : Char} {cs l p q : List Char} {args : List Expr} {ss : List Suffix} (hc : isLetter c = true)
      (hcs : ∀ d ∈ cs, isNameChar d = true) (hl : l.head? = some '(')
      (hargs : ∃ n s t, arguments readInner n s = .ok args t ∧ s.pending = l ∧ t.pending = p)
      (h : Chain readInner ss p q) :
      Chain readInner (.method (String.ofList (c :: cs)) args :: ss) ('.' :: c :: cs ++ l) q
  | index {l p q : List Char} {key : Expr} {ss : List Suffix}
      (hkey : ∃ n s t, primary readInner n false s = .ok key t ∧ s.pending = l ∧ t.pending = ']' :: p)
      (h : Chain readInner ss p q) : Chain readInner (.index key :: ss) ('[' :: l) q

/-- A name is read to its end, and nothing was put back before the next character. -/
theorem Gives.name {what : String} {Φ : String → Scanner → Prop}
    (h : ∀ c cs p, s.pending = c :: cs ++ p → isLetter c = true → (∀ d ∈ cs, isNameChar d = true) →
      (∀ d ∈ p.head?, isNameChar d = false) →
      ∀ t : Scanner, t.pending = p → t.slot = none → Φ (String.ofList (c :: cs)) t) :
    Gives (name what) s Φ := by
  refine .seq (.sees (.ite (fun hletter => .seq ?_) fun _ => .fail))
  rintro _ _ ⟨⟩
  rw [Scanner.current_eq] at hletter
  cases hs : s.pending with
  | nil => simp [hs] at hletter
  | cons c cs =>
    have hc : isLetter c = true := by simpa [hs] using hletter
    have hrun : (c :: cs).takeWhile isNameChar = c :: cs.takeWhile isNameChar := by
      simp [isNameChar_of_isLetter hc]
    have hpending : s.pending = c :: cs.takeWhile isNameChar ++ cs.dropWhile isNameChar := by
      rw [hs, List.cons_append, List.takeWhile_append_dropWhile]
    have hlength : (cs.takeWhile isNameChar).length + 1 ≤ s.left := by
      have hle := s.takeWhile_left isNameChar
      rwa [hs, hrun] at hle
    rw [hrun]
    refine .pure (h c _ _ hpending hc (fun d hd => List.mem_takeWhile_imp hd) (fun d hd => ?_) _ ?_
      (Scanner.slot_advanceBy hlength))
    · have hhead := List.head?_dropWhile_not isNameChar cs
      rw [hd] at hhead
      simpa using hhead
    · rw [← hrun, ← hs]
      show (s.takeWhile isNameChar).2.pending = _
      rw [Scanner.pending_takeWhile, hs]
      simp [isNameChar_of_isLetter hc]

end Scan

namespace Read

/-- Text goes on after a reference as if there had been no look past a period. -/
theorem nodes_eq {readInner : ReadInner} {v t : Scanner} (h : v.LookedPast t) (n : Nat)
    (done : List Node) (ms : List MacroDef) :
    nodes readInner (n + 2) done ⟨t, ms⟩ = nodes readInner (n + 2) done ⟨v, ms⟩ := by
  have hitem {u : Scanner} (hu : u.current = some '.') : item readInner (n + 1) ⟨u, ms⟩ =
      (do return Item.node (← Scan.plainText ['.']) : Read Item) ⟨u.advance, ms⟩ := by
    obtain ⟨resource, current, slot, rest, line⟩ := u
    cases hu
    rfl
  rcases id h with rfl | ⟨hv, -⟩
  · rfl
  · show EStateM.bind (item readInner (n + 1)) _ _ = EStateM.bind (item readInner (n + 1)) _ _
    rw [EStateM.bind, EStateM.bind, hitem hv, hitem (h.current_eq.trans hv), h.advance_eq]

end Read

namespace Document

end Document

end Stencil
