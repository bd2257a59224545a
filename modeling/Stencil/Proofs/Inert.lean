import Mathlib.Data.List.Infix
import Stencil.Template.ReadDocument

/-!
# Inert markers

Where a dollar sign or a hash sign of a text means nothing: `inertAt` looks at the characters after it, and
a text is inert if all its markers are. What follows a marker is judged alike before and after the ends of
lines are unified.
-/

namespace Stencil

open Stencil.Text

/-- Characters without a first one that may be there. -/
def dropOptional (c : Char) : List Char → List Char
  | d :: cs => if d = c then cs else d :: cs
  | [] => []

theorem dropOptional_cons (c : Char) (cs : List Char) : dropOptional c (c :: cs) = cs :=
  if_pos rfl

theorem dropOptional_of_ne {c : Char} {cs : List Char} (h : cs.head? ≠ some c) : dropOptional c cs = cs := by
  cases cs with
  | nil => rfl
  | cons d cs => exact if_neg fun hd => h (congrArg some hd)

/-- Whether what follows a dollar sign makes it a reference: an exclamation mark and a brace, which may be
left out, and a letter. -/
def beginsReference (cs : List Char) : Bool :=
  (dropOptional '{' (dropOptional '!' cs)).head?.any isLetter

/-- The names of directives. -/
def directiveKeywords : List String :=
  ["end", "elseif", "else", "if", "foreach", "break", "set", "define", "parse", "macro", "evaluate"]

/-- Whether a name is read as more than text, where `parenthesis` says that one follows it. A name after an
at sign is no keyword. -/
def meansMore (hasBody : Bool) (name : String) (parenthesis : Bool) : Bool :=
  unsupportedDirectives.contains name || "end".toList.isPrefixOf name.toList ||
    (!hasBody && directiveKeywords.contains name) || parenthesis

/-- Whether characters begin with a name that is read as more than text. -/
def beginsDirective (hasBody : Bool) (cs : List Char) : Bool :=
  cs.head?.any isLetter &&
    meansMore hasBody (String.ofList (cs.takeWhile isNameChar))
      (((cs.dropWhile isNameChar).dropWhile isBlank).head? == some '(')

/-- Whether what follows a hash sign makes it more than text. -/
def beginsMarkup : List Char → Bool
  | [] => false
  | c :: cs =>
    if c = '#' ∨ c = '*' ∨ c = '{' then true
    else if c = '[' then cs.head? == some '['
    else if c = '@' then beginsDirective true cs
    else beginsDirective false (c :: cs)

/-- Whether characters begin with no marker, or with one that means nothing. -/
def inertAt : List Char → Bool
  | [] => true
  | c :: cs =>
    if c = '$' then !beginsReference cs
    else if c = '#' then !beginsMarkup cs
    else true

/-- Whether every dollar sign and every hash sign of a text means nothing. -/
def Inert (cs : List Char) : Prop :=
  ∀ p, p <:+ cs → inertAt p = true

instance (cs : List Char) : Decidable (Inert cs) :=
  decidable_of_iff (∀ p ∈ cs.tails, inertAt p = true) (forall_congr' fun _ => by rw [List.mem_tails])

theorem Inert.suffix {p cs : List Char} (h : Inert cs) (hp : p <:+ cs) : Inert p :=
  fun _ hq => h _ (hq.trans hp)

/-! ### Ends of lines -/

section Newlines

variable {c : Char} {cs : List Char} {P : Char → Bool}

theorem unifyNewlines_cons_of_ne (h : c ≠ '\r') (cs : List Char) :
    unifyNewlines (c :: cs) = c :: unifyNewlines cs := by
  rw [unifyNewlines.eq_def]
  split
  · rename_i heq
    cases heq
  · rename_i heq
    cases heq
    exact absurd rfl h
  · rename_i heq
    cases heq
    rw [if_neg h]

/-- A line end stays one. -/
theorem unifyNewlines_return (cs : List Char) : ∃ rest, unifyNewlines ('\r' :: cs) = '\n' :: unifyNewlines rest := by
  rw [unifyNewlines.eq_def]
  split
  · rename_i heq
    cases heq
  · exact ⟨_, rfl⟩
  · rename_i heq
    cases heq
    exact ⟨cs, by rw [if_pos rfl]⟩

/-- Unifying the ends of lines keeps whether the first character is of a class that has both of them or
none. -/
theorem any_head?_unifyNewlines (hP : P '\r' = P '\n') (cs : List Char) :
    (unifyNewlines cs).head?.any P = cs.head?.any P := by
  cases cs with
  | nil => rfl
  | cons d cs =>
    by_cases hd : d = '\r'
    · subst hd
      obtain ⟨rest, hrest⟩ := unifyNewlines_return cs
      rw [hrest]
      exact hP.symm
    · rw [unifyNewlines_cons_of_ne hd]
      rfl

theorem head?_unifyNewlines (hr : c ≠ '\r') (hn : c ≠ '\n') (cs : List Char) :
    ((unifyNewlines cs).head? == some c) = (cs.head? == some c) := by
  have hany (l : List Char) : (l.head? == some c) = l.head?.any (· == c) := by cases l <;> rfl
  rw [hany, hany]
  refine any_head?_unifyNewlines ?_ cs
  rw [beq_false_of_ne hr.symm, beq_false_of_ne hn.symm]

theorem dropOptional_unifyNewlines (hr : c ≠ '\r') (hn : c ≠ '\n') (cs : List Char) :
    dropOptional c (unifyNewlines cs) = unifyNewlines (dropOptional c cs) := by
  cases cs with
  | nil => rfl
  | cons d cs =>
    by_cases hd : d = '\r'
    · subst hd
      obtain ⟨rest, hrest⟩ := unifyNewlines_return cs
      rw [hrest, dropOptional, dropOptional, if_neg hn.symm, if_neg hr.symm, hrest]
    · rw [unifyNewlines_cons_of_ne hd, dropOptional, dropOptional]
      split
      · rfl
      · rw [unifyNewlines_cons_of_ne hd]

theorem takeWhile_unifyNewlines (hr : P '\r' = false) (hn : P '\n' = false) (cs : List Char) :
    (unifyNewlines cs).takeWhile P = cs.takeWhile P := by
  induction cs with
  | nil => rfl
  | cons d cs ih =>
    by_cases hd : d = '\r'
    · subst hd
      obtain ⟨rest, hrest⟩ := unifyNewlines_return cs
      rw [hrest, List.takeWhile_cons_of_neg (by simp [hn]), List.takeWhile_cons_of_neg (by simp [hr])]
    · rw [unifyNewlines_cons_of_ne hd, List.takeWhile_cons, List.takeWhile_cons, ih]

theorem dropWhile_unifyNewlines (hP : P '\r' = P '\n') (cs : List Char) :
    (unifyNewlines cs).dropWhile P = unifyNewlines (cs.dropWhile P) := by
  fun_induction unifyNewlines cs with
  | case1 => rfl
  | case2 rest ih =>
    by_cases hn : P '\n' = true
    · simp [hn, hP, ih]
    · simp [hn, hP, unifyNewlines]
  | case3 d rest hcrlf ih =>
    by_cases hd : P d = true
    · have hd' : P (if d = '\r' then '\n' else d) = true := by
        split
        · rename_i h
          rw [← hP, ← h]
          exact hd
        · exact hd
      rw [List.dropWhile_cons_of_pos hd', List.dropWhile_cons_of_pos hd, ih]
    · have hd' : ¬P (if d = '\r' then '\n' else d) = true := by
        split
        · rename_i h
          rw [← hP, ← h]
          exact hd
        · exact hd
      rw [List.dropWhile_cons_of_neg hd', List.dropWhile_cons_of_neg hd, unifyNewlines.eq_3 _ _ hcrlf]

/-- The ends of a text whose line ends are unified are those of the text. -/
theorem suffix_unifyNewlines {p cs : List Char} (h : p <:+ unifyNewlines cs) :
    ∃ q, q <:+ cs ∧ p = unifyNewlines q := by
  fun_induction unifyNewlines cs with
  | case1 => exact ⟨[], List.suffix_refl _, List.suffix_nil.1 h⟩
  | case2 rest ih =>
    rcases List.suffix_cons_iff.1 h with rfl | h
    · exact ⟨_, List.suffix_refl _, rfl⟩
    · obtain ⟨q, hq, hp⟩ := ih h
      exact ⟨q, (hq.trans (List.suffix_cons _ _)).trans (List.suffix_cons _ _), hp⟩
  | case3 d rest hcrlf ih =>
    rcases List.suffix_cons_iff.1 h with rfl | h
    · exact ⟨_, List.suffix_refl _, (unifyNewlines.eq_3 _ _ hcrlf).symm⟩
    · obtain ⟨q, hq, hp⟩ := ih h
      exact ⟨q, hq.trans (List.suffix_cons _ _), hp⟩

end Newlines

theorem beginsReference_unifyNewlines (cs : List Char) :
    beginsReference (unifyNewlines cs) = beginsReference cs := by
  rw [beginsReference, dropOptional_unifyNewlines (by decide) (by decide),
    dropOptional_unifyNewlines (by decide) (by decide), any_head?_unifyNewlines (by decide)]
  rfl

theorem beginsDirective_unifyNewlines (hasBody : Bool) (cs : List Char) :
    beginsDirective hasBody (unifyNewlines cs) = beginsDirective hasBody cs := by
  rw [beginsDirective, any_head?_unifyNewlines (by decide), takeWhile_unifyNewlines (by decide) (by decide),
    dropWhile_unifyNewlines (by decide), dropWhile_unifyNewlines (by decide),
    head?_unifyNewlines (by decide) (by decide)]
  rfl

theorem beginsMarkup_unifyNewlines (cs : List Char) :
    beginsMarkup (unifyNewlines cs) = beginsMarkup cs := by
  cases cs with
  | nil => rfl
  | cons d cs =>
    by_cases hd : d = '\r'
    · subst hd
      obtain ⟨rest, hrest⟩ := unifyNewlines_return cs
      rw [hrest]
      rfl
    · have hname := beginsDirective_unifyNewlines false (d :: cs)
      rw [unifyNewlines_cons_of_ne hd] at hname ⊢
      rw [beginsMarkup, beginsMarkup, head?_unifyNewlines (by decide) (by decide),
        beginsDirective_unifyNewlines, hname]

/-- Unifying the ends of lines keeps markers inert. -/
theorem inertAt_unifyNewlines (cs : List Char) : inertAt (unifyNewlines cs) = inertAt cs := by
  cases cs with
  | nil => rfl
  | cons d cs =>
    by_cases hd : d = '\r'
    · subst hd
      obtain ⟨rest, hrest⟩ := unifyNewlines_return cs
      rw [hrest]
      rfl
    · rw [unifyNewlines_cons_of_ne hd, inertAt, inertAt, beginsReference_unifyNewlines,
        beginsMarkup_unifyNewlines]

theorem Inert.unifyNewlines {cs : List Char} (h : Inert cs) : Inert (unifyNewlines cs) := by
  intro p hp
  obtain ⟨q, hq, rfl⟩ := suffix_unifyNewlines hp
  rw [inertAt_unifyNewlines]
  exact h q hq

end Stencil
