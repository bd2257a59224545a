import Stencil.Proofs.Moments

/-!
# Where reading comes to

What reading does with a text is decided where it comes to a part of it: `Comes` follows a step of reading to
another one that it carries out, and a failure there is one of the whole, `Comes.fails`. Operations of a
scanner keep it in its text, so that the lines on the way can be told from what is still to be read.
-/

namespace Stencil

open Stencil.Text

/-- Whether the second scanner is what operations make of the first. -/
def Scanner.Reaches (s t : Scanner) : Prop :=
  ∃ ops, t = after ops s

/-- The line of the last character of the text. -/
def Scanner.lastLine (s : Scanner) : Nat :=
  s.line + newlines s.rest

namespace Scanner

variable {s t u : Scanner} {c d : Char} {p : List Char}

/-- A character before one that ends no line is passed on one line, also where something was put back. -/
theorem advance_eq_of_pending {s : Scanner} (h : s.pending = c :: d :: p) (hd : d ≠ '\n') :
    s.advance = ⟨s.resource, some d, none, p, s.line⟩ := by
  obtain ⟨resource, current, slot, rest, line⟩ := s
  rcases current with _ | c
  · cases h
  · rcases slot with _ | _ | d
    · obtain ⟨rfl, rfl⟩ := List.cons.inj h
      simp [advance, take, hd]
    · cases h
    · obtain ⟨rfl, rfl⟩ := List.cons.inj (List.cons.inj h).2
      rfl

theorem lastLine_take (s : Scanner) : s.take.lastLine = s.lastLine := by
  obtain ⟨resource, current, slot, rest, line⟩ := s
  cases rest with
  | nil => rfl
  | cons c cs =>
    simp only [take, lastLine, newlines_cons]
    split <;> omega

theorem lastLine_apply (o : Op) (s : Scanner) : (o.apply s).lastLine = s.lastLine := by
  cases o with
  | putBack c => rfl
  | advance =>
    show s.advance.lastLine = _
    rw [advance]
    split
    · rfl
    · rfl
    · exact s.lastLine_take

theorem resource_apply (o : Op) (s : Scanner) : (o.apply s).resource = s.resource := by
  obtain ⟨resource, current, slot, rest, line⟩ := s
  cases o with
  | putBack c => rfl
  | advance => rcases current with _ | c <;> rcases slot with _ | d <;> cases rest <;> rfl

namespace Reaches

theorem refl (s : Scanner) : s.Reaches s :=
  ⟨[], rfl⟩

theorem trans (h : s.Reaches t) (h' : t.Reaches u) : s.Reaches u := by
  obtain ⟨ops, rfl⟩ := h
  obtain ⟨ops', rfl⟩ := h'
  exact ⟨ops ++ ops', (after_append ops ops' s).symm⟩

/-- Whatever is done to a scanner, it stays in its text. -/
theorem same_text (h : s.Reaches t) : t.resource = s.resource ∧ t.lastLine = s.lastLine := by
  obtain ⟨ops, rfl⟩ := h
  induction ops generalizing s with
  | nil => exact ⟨rfl, rfl⟩
  | cons o ops ih =>
    obtain ⟨hresource, hline⟩ := ih (s := o.apply s)
    exact ⟨hresource.trans (resource_apply o s), hline.trans (lastLine_apply o s)⟩

end Reaches

theorem lastLine_ofText (text : String) (resource : Option String) :
    (ofText text resource).lastLine = 1 + newlines (unifyNewlines text.toList) :=
  lastLine_take _

/-- Before a character that ends no line, the line feeds that come up are those of what follows. -/
theorem lastLine_of_pending (h : s.pending = c :: d :: p) (hd : d ≠ '\n') :
    s.lastLine = s.line + newlines p := by
  have hadvance : s.advance.lastLine = s.lastLine := lastLine_apply .advance s
  rw [← hadvance, advance_eq_of_pending h hd]
  rfl

end Scanner

/-- Whether carrying out a step from a state comes to the step `z` in the state `u`: at once, in the first of
steps in a row, or in a later one. The steps before give results, and lead from states to related ones. -/
inductive Comes {σ β : Type} (R : σ → σ → Prop) (z : EStateM ParseFailure σ β) (u : σ) :
    {α : Type} → EStateM ParseFailure σ α → σ → Prop
  | here : Comes R z u z u
  | first {α γ : Type} {x : EStateM ParseFailure σ γ} {f : γ → EStateM ParseFailure σ α} {s : σ}
      (h : Comes R z u x s) : Comes R z u (x >>= f) s
  | later {α γ : Type} {x : EStateM ParseFailure σ γ} {f : γ → EStateM ParseFailure σ α} {s t : σ} {b : γ}
      (hx : x s = .ok b t) (ht : R s t) (h : Comes R z u (f b) t) : Comes R z u (x >>= f) s

namespace Comes

variable {σ α β : Type} {R : σ → σ → Prop} {z : EStateM ParseFailure σ β} {x : EStateM ParseFailure σ α}
  {s u u' : σ} {e : ParseFailure}

/-- A failure is not taken back. -/
theorem fails (h : Comes R z u x s) (hz : z u = .error e u') : x s = .error e u' := by
  induction h with
  | here => exact hz
  | first _ ih =>
    show EStateM.bind _ _ _ = _
    rw [EStateM.bind, ih]
  | later hx _ _ ih =>
    show EStateM.bind _ _ _ = _
    rw [EStateM.bind, hx]
    exact ih

theorem related (h : Comes R z u x s) (hrefl : ∀ s, R s s) (htrans : ∀ s t u, R s t → R t u → R s u) :
    R s u := by
  induction h with
  | here => exact hrefl _
  | first _ ih => exact ih
  | later _ ht _ ih => exact htrans _ _ _ ht ih

end Comes

/-- Whether the second reader is what operations on its scanner make of the first, and macros that it met. -/
def Reader.Reaches (r r' : Reader) : Prop :=
  r.scanner.Reaches r'.scanner

namespace Read

variable {α β : Type} {readInner : ReadInner} {n : Nat} {r r₁ r' u : Reader} {x : Node} {done : List Node}
  {z : Read β}

theorem reaches_call {c : Call α} {a : α} (h : c.run readInner n r = .ok a r') : r.Reaches r' := by
  obtain ⟨ops, o, hdoes, -, -⟩ := c.goes n r
  obtain ⟨ho, hafter⟩ := hdoes.sound
  exact ⟨ops, hafter a r' (ho.symm.trans h)⟩

/-- Reading a sequence comes to what its first item comes to. -/
theorem comes_item (h : Comes Reader.Reaches z u (item readInner n) r) :
    Comes Reader.Reaches z u (nodes readInner (n + 1) done) r :=
  .first h

/-- Reading a sequence comes past a node to what the rest of the sequence comes to. -/
theorem comes_past (hx : item readInner n r = .ok (.node x) r₁)
    (h : Comes Reader.Reaches z u (nodes readInner n (addNode done x)) r₁) :
    Comes Reader.Reaches z u (nodes readInner (n + 1) done) r :=
  .later hx (reaches_call (c := .item) hx) h

end Read

end Stencil
