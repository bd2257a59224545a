import Stencil.Template.ReadDocument

/-!
# What reading does to the characters that remain

A step of reading is judged by the characters that are still to be read when it begins and when it ends;
where the scanner stands in the text does not matter. `Scan.Reads` says what a step does with a text,
whether it ends with a result or refuses the text. One rule for each operation of the scanner, and one
for steps in a row.
-/

namespace Stencil

open Stencil.Text

namespace Scanner

theorem current_eq (s : Scanner) : s.current = s.pending.head? := by
  obtain ⟨resource, current, slot, rest, line⟩ := s
  rcases current with _ | c
  · rfl
  · rcases slot with _ | _ | d <;> rfl

/-- A character that was just passed can be put back. -/
theorem pending_putBack_advance {s : Scanner} {c : Char} {cs : List Char} (h : s.pending = c :: cs)
    (d : Char) : (s.advance.putBack d).pending = d :: cs := by
  have hslot : s.advance.slot = none := by
    obtain ⟨resource, current, slot, rest, line⟩ := s
    rcases current with _ | b
    · cases h
    · rcases slot with _ | _ | e
      · cases rest <;> rfl
      · rfl
      · rfl
  rw [pending_putBack _ _ hslot, pending_advance, h]
  rfl

end Scanner

/-- Characters without the line feed that they begin with. -/
def dropNewline : List Char → List Char
  | '\n' :: cs => cs
  | cs => cs

theorem Scanner.pending_skipNewline (s : Scanner) : s.skipNewline.pending = dropNewline s.pending := by
  rw [skipNewline, current_eq]
  split
  · rename_i h
    obtain ⟨cs, hcs⟩ := List.head?_eq_some_iff.1 h
    rw [pending_advance, hcs]
    rfl
  · rename_i h
    match hp : s.pending with
    | [] => rfl
    | c :: cs =>
      rw [hp] at h
      have hc : c ≠ '\n' := fun he => h (congrArg some he)
      simp [dropNewline, hc]

namespace Scan

variable {α β : Type} {p : List Char} {Φ Ψ : α → List Char → Prop} {E F : ParseError → Prop}

theorem bind_ok {x : Scan β} {f : β → Scan α} {b : β} {s t : Scanner} (h : x s = .ok b t) :
    (x >>= f) s = f b t := by
  show EStateM.bind x f s = _
  rw [EStateM.bind, h]

/-- Whether reading from the characters `p` ends with a result and remaining characters that satisfy `Φ`,
or refuses the text with an error that satisfies `E`. -/
def Reads (x : Scan α) (p : List Char) (Φ : α → List Char → Prop) (E : ParseError → Prop) : Prop :=
  ∀ s : Scanner, s.pending = p →
    match x s with
    | .ok a s' => Φ a s'.pending
    | .error (.error e) _ => E e
    | .error .exhausted _ => False

theorem Reads.mono {x : Scan α} (h : Reads x p Φ E) (hΦ : ∀ a q, Φ a q → Ψ a q) (hE : ∀ e, E e → F e) :
    Reads x p Ψ F := by
  intro s hs
  have hx := h s hs
  split at hx
  · exact hΦ _ _ hx
  · exact hE _ hx
  · exact hx

theorem Reads.pure {a : α} (h : Φ a p) : Reads (Pure.pure a) p Φ E := by
  rintro s rfl
  exact h

theorem Reads.bind {x : Scan β} {f : β → Scan α} (h : Reads x p (fun b q => Reads (f b) q Φ E) E) :
    Reads (x >>= f) p Φ E := by
  intro s hs
  have hx := h s hs
  show match EStateM.bind x f s with
    | .ok a s' => Φ a s'.pending
    | .error (.error e) _ => E e
    | .error .exhausted _ => False
  rw [EStateM.bind]
  split at hx
  · rename_i b s' hb
    rw [hb]
    exact hx s' rfl
  · rename_i e s' hb
    rw [hb]
    exact hx
  · exact hx.elim

theorem Reads.map {x : Scan β} {f : β → α} (h : Reads x p (fun b q => Φ (f b) q) E) :
    Reads (f <$> x) p Φ E :=
  Reads.bind (f := fun b => Pure.pure (f b)) (h.mono (fun _ _ hb => .pure hb) fun _ he => he)

theorem Reads.peek {Φ : Option Char → List Char → Prop} (h : Φ p.head? p) : Reads peek p Φ E := by
  rintro s rfl
  show Φ s.current s.pending
  rw [Scanner.current_eq]
  exact h

theorem Reads.skip {Φ : Unit → List Char → Prop} (h : Φ () p.tail) : Reads skip p Φ E := by
  rintro s rfl
  show Φ () s.advance.pending
  rw [Scanner.pending_advance]
  exact h

theorem Reads.here {Φ : Place → List Char → Prop} (h : ∀ place, Φ place p) : Reads here p Φ E := by
  rintro s rfl
  exact h s.place

theorem Reads.skipBlanks {Φ : Unit → List Char → Prop} (h : Φ () (p.dropWhile isBlank)) :
    Reads skipBlanks p Φ E := by
  rintro s rfl
  show Φ () s.skipBlanks.pending
  rw [Scanner.pending_skipBlanks]
  exact h

theorem Reads.nextNonBlank {Φ : Unit → List Char → Prop} (h : Φ () (p.tail.dropWhile isBlank)) :
    Reads nextNonBlank p Φ E := by
  rintro s rfl
  show Φ () s.advance.skipBlanks.pending
  rw [Scanner.pending_skipBlanks, Scanner.pending_advance]
  exact h

theorem Reads.skipNewline {Φ : Unit → List Char → Prop} (h : Φ () (dropNewline p)) :
    Reads skipNewline p Φ E := by
  rintro s rfl
  show Φ () s.skipNewline.pending
  rw [Scanner.pending_skipNewline]
  exact h

theorem Reads.takeWhile {c : Char → Bool} {Φ : List Char → List Char → Prop}
    (h : Φ (p.takeWhile c) (p.dropWhile c)) : Reads (takeWhile c) p Φ E := by
  rintro s rfl
  show Φ _ (s.takeWhile c).2.pending
  rw [Scanner.pending_takeWhile]
  exact h

theorem Reads.fail {cause : ParseCause} (h : ∀ s : Scanner, s.pending = p → E (s.error cause)) :
    Reads (fail cause) p Φ E :=
  fun s hs => h s hs

theorem Reads.expect {c : Char} {q : List Char} {Φ : Unit → List Char → Prop}
    (hp : p.dropWhile isBlank = c :: q) (h : Φ () q) : Reads (expect c) p Φ E := by
  refine .bind (.skipBlanks ?_)
  rw [hp]
  refine .bind (.peek ?_)
  rw [List.head?_cons, if_pos rfl]
  exact .skip h

theorem Reads.sees {c : Char → Bool} {Φ : Bool → List Char → Prop} (h : Φ (p.head?.any c) p) :
    Reads (sees c) p Φ E :=
  .bind (.peek (.pure h))

/-- A name is read to its end. -/
theorem Reads.name {what : String} {c : Char} {cs : List Char} {Φ : String → List Char → Prop}
    (hc : isLetter c = true)
    (h : Φ (String.ofList ((c :: cs).takeWhile isNameChar)) ((c :: cs).dropWhile isNameChar)) :
    Reads (name what) (c :: cs) Φ E := by
  refine .bind (.sees ?_)
  rw [if_pos (by simpa using hc)]
  exact .bind (.takeWhile (.pure h))

end Scan

namespace Read

variable {α β : Type} {p : List Char} {Φ Ψ : α → List Char → Prop} {E F : ParseError → Prop}

/-- Whether reading nodes from the characters `p` ends with a result and remaining characters that satisfy
`Φ`, or refuses the text with an error that satisfies `E`. -/
def Reads (x : Read α) (p : List Char) (Φ : α → List Char → Prop) (E : ParseError → Prop) : Prop :=
  ∀ r : Reader, r.scanner.pending = p →
    match x r with
    | .ok a r' => Φ a r'.scanner.pending
    | .error (.error e) _ => E e
    | .error .exhausted _ => False

theorem Reads.mono {x : Read α} (h : Reads x p Φ E) (hΦ : ∀ a q, Φ a q → Ψ a q) (hE : ∀ e, E e → F e) :
    Reads x p Ψ F := by
  intro r hr
  have hx := h r hr
  split at hx
  · exact hΦ _ _ hx
  · exact hE _ hx
  · exact hx

theorem Reads.pure {a : α} (h : Φ a p) : Reads (Pure.pure a) p Φ E := by
  rintro r rfl
  exact h

theorem Reads.bind {x : Read β} {f : β → Read α} (h : Reads x p (fun b q => Reads (f b) q Φ E) E) :
    Reads (x >>= f) p Φ E := by
  intro r hr
  have hx := h r hr
  show match EStateM.bind x f r with
    | .ok a r' => Φ a r'.scanner.pending
    | .error (.error e) _ => E e
    | .error .exhausted _ => False
  rw [EStateM.bind]
  split at hx
  · rename_i b r' hb
    rw [hb]
    exact hx r' rfl
  · rename_i e r' hb
    rw [hb]
    exact hx
  · exact hx.elim

/-- A step on the scanner does to the characters what it does alone. -/
theorem Reads.scan {x : Scan α} (h : Scan.Reads x p Φ E) : Reads (Read.scan x) p Φ E := by
  intro r hr
  have hx := h r.scanner hr
  rw [Read.scan]
  split at hx
  · rename_i a s' ha
    rw [ha]
    exact hx
  · rename_i e s' ha
    rw [ha]
    exact hx
  · exact hx.elim

theorem Reads.define {m : MacroDef} {Φ : Unit → List Char → Prop} (h : Φ () p) :
    Reads (define m) p Φ E := by
  rintro r rfl
  exact h

end Read

end Stencil
