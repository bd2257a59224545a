import Stencil.Template.ParseError
import Stencil.Text.Blank
import Stencil.Text.Letter
import Stencil.Text.Newline

/-!
# Template — the scanner

A scanner over the text of a template: the current character, one slot for a character that was put
back, and the rest of the text. `Scanner.pending` is the view of a scanner as the list of characters
still to be read, and each operation acts on that view as an operation on lists. The line counts the
characters that were looked at, also those that are put back.
-/

namespace Stencil

open Stencil.Text

/-- A scanner. No current character means the end of the text; a slot that holds no character holds
the end of the text. -/
structure Scanner where
  resource : Option String
  current : Option Char
  slot : Option (Option Char)
  rest : List Char
  line : Nat
  deriving DecidableEq, Repr, Inhabited

namespace Scanner

/-- The characters still to be read, the current one first. -/
def pending (s : Scanner) : List Char :=
  match s.current, s.slot with
  | none, _ => []
  | some c, none => c :: s.rest
  | some c, some none => [c]
  | some c, some (some d) => c :: d :: s.rest

/-- Takes the next character of the text as the current one. -/
def take (s : Scanner) : Scanner :=
  match s.rest with
  | [] => { s with current := none }
  | c :: cs => { s with current := some c, rest := cs, line := if c = '\n' then s.line + 1 else s.line }

/-- Goes to the next character. At the end of the text nothing changes. -/
def advance (s : Scanner) : Scanner :=
  match s.current, s.slot with
  | none, _ => s
  | some _, some c => { s with current := c, slot := none }
  | some _, none => s.take

/-- Goes forward a number of characters. -/
def advanceBy : Nat → Scanner → Scanner
  | 0, s => s
  | n + 1, s => advanceBy n s.advance

/-- Makes a character the current one; the former one follows it. -/
def putBack (c : Char) (s : Scanner) : Scanner :=
  { s with current := some c, slot := some s.current }

/-- A scanner at the first character of a text, whose line ends become line feeds. -/
def ofText (text : String) (resource : Option String) : Scanner :=
  take ⟨resource, none, none, unifyNewlines text.toList, 1⟩

/-- Reads the longest run of characters of a class. -/
def takeWhile (p : Char → Bool) (s : Scanner) : List Char × Scanner :=
  let run := s.pending.takeWhile p
  (run, s.advanceBy run.length)

/-- Goes past the blanks. -/
def skipBlanks (s : Scanner) : Scanner :=
  (s.takeWhile isBlank).2

/-- Goes past the current character and the blanks after it. -/
def nextNonBlank (s : Scanner) : Scanner :=
  s.advance.skipBlanks

/-- Goes past one line feed, if there is one here. -/
def skipNewline (s : Scanner) : Scanner :=
  if s.current = some '\n' then s.advance else s

theorem pending_take (s : Scanner) (h : s.slot = none) : s.take.pending = s.rest := by
  obtain ⟨resource, current, slot, rest, line⟩ := s
  subst h
  cases rest <;> simp [take, pending]

/-- Going to the next character leaves out the first one that is pending. -/
theorem pending_advance (s : Scanner) : s.advance.pending = s.pending.tail := by
  obtain ⟨resource, current, slot, rest, line⟩ := s
  rcases current with _ | c
  · rfl
  · rcases slot with _ | _ | d
    · rw [show Scanner.advance ⟨resource, some c, none, rest, line⟩ =
        Scanner.take ⟨resource, some c, none, rest, line⟩ from rfl, pending_take _ rfl]
      rfl
    · rfl
    · rfl

theorem pending_advanceBy (n : Nat) (s : Scanner) : (s.advanceBy n).pending = s.pending.drop n := by
  induction n generalizing s with
  | zero => rfl
  | succ n ih => rw [advanceBy, ih, pending_advance, List.drop_tail]

/-- A character that is put back is pending before all others, if nothing was put back before it. -/
theorem pending_putBack (c : Char) (s : Scanner) (h : s.slot = none) :
    (s.putBack c).pending = c :: s.pending := by
  obtain ⟨resource, current, slot, rest, line⟩ := s
  subst h
  cases current <;> rfl

theorem pending_ofText (text : String) (resource : Option String) :
    (ofText text resource).pending = unifyNewlines text.toList :=
  pending_take _ rfl

theorem pending_takeWhile (p : Char → Bool) (s : Scanner) :
    (s.takeWhile p).2.pending = s.pending.dropWhile p := by
  rw [takeWhile, pending_advanceBy]
  conv => lhs; rhs; rw [← List.takeWhile_append_dropWhile (p := p) (l := s.pending)]
  exact List.drop_left

theorem pending_skipBlanks (s : Scanner) : s.skipBlanks.pending = s.pending.dropWhile isBlank :=
  pending_takeWhile isBlank s

/-- The place of the current character. -/
def place (s : Scanner) : Place :=
  ⟨s.resource, s.line⟩

/-- How many characters of the text an error quotes. -/
def quotedLength : Nat := 20

/-- The text that an error quotes: the first characters still to be read. -/
def following (s : Scanner) : String :=
  match s.pending with
  | [] => "EOF"
  | cs =>
    String.ofList (cs.take quotedLength) ++ if quotedLength < cs.length then "..." else ""

/-- The error of a cause here. -/
def error (cause : ParseCause) (s : Scanner) : ParseError :=
  ⟨cause, s.place, some s.following⟩

/-- The scanner after an error, which has read what the error quotes. -/
def afterError (s : Scanner) : Scanner :=
  s.advanceBy quotedLength

end Scanner

/-- A step of reading: it ends with a result or a failure, and leaves a scanner in both cases. -/
abbrev Scan := EStateM ParseFailure Scanner

namespace Scan

/-- The current character. -/
def peek : Scan (Option Char) := do
  return (← get).current

/-- Goes to the next character. -/
def skip : Scan Unit :=
  modify Scanner.advance

/-- The place of the current character. -/
def here : Scan Place := do
  return (← get).place

/-- Fails here for a cause. -/
def fail {α : Type} (cause : ParseCause) : Scan α := do
  let s ← get
  set s.afterError
  throw (.error (s.error cause))

/-- Fails for want of fuel. -/
def exhausted {α : Type} : Scan α :=
  throw .exhausted

/-- Goes past the blanks. -/
def skipBlanks : Scan Unit :=
  modify Scanner.skipBlanks

/-- Goes past the current character and the blanks after it. -/
def nextNonBlank : Scan Unit :=
  modify Scanner.nextNonBlank

/-- Goes past one line feed, if there is one here. -/
def skipNewline : Scan Unit :=
  modify Scanner.skipNewline

/-- Reads the longest run of characters of a class. -/
def takeWhile (p : Char → Bool) : Scan (List Char) :=
  modifyGet (Scanner.takeWhile p)

/-- Puts a character back. -/
def putBack (c : Char) : Scan Unit :=
  modify (Scanner.putBack c)

/-- Goes past the blanks and then past the given character, which has to be there. -/
def expect (c : Char) : Scan Unit := do
  skipBlanks
  if (← peek) = some c then skip else fail (.expected c)

/-- Whether the current character is of a class. -/
def sees (p : Char → Bool) : Scan Bool := do
  return (← peek).any p

/-- Reads a name. `what` says in the error what was to begin here. -/
def name (what : String) : Scan String := do
  if ← sees isLetter then
    return String.ofList (← takeWhile isNameChar)
  else fail (.nameStart what)

end Scan

end Stencil
