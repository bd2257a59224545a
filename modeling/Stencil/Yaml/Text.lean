import Stencil.Text.Blank
import Stencil.Text.Letter
import Stencil.Yaml.Problem

/-!
# YAML — the text being read

The characters that are left, with their place, and the steps that every part of reading is made of. A
line feed begins a new line. Three other characters end a line as well without beginning one: where they
stand, the next character is still on the same line and further in.
-/

namespace Stencil

/-- A text being read: the characters left, how many the text has, and the place of the first that is
left. A byte order mark takes up no column. -/
structure YamlText where
  rest : List Char
  size : Nat
  index : Nat := 0
  line : Nat := 0
  column : Nat := 0
  deriving Inhabited

/-- A step of reading a text, which may refuse it. -/
abbrev YamlRead := StateT YamlText YamlResult

namespace YamlText

/-- The text after one character. -/
def advance (t : YamlText) : YamlText :=
  match t.rest with
  | [] => t
  | c :: cs =>
    let t := { t with rest := cs, index := t.index + 1 }
    if c = '\n' then { t with line := t.line + 1, column := 0 }
    else if c = '\ufeff' then t
    else { t with column := t.column + 1 }

/-- The text after a number of characters. -/
def advanceBy : Nat → YamlText → YamlText
  | 0, t => t
  | n + 1, t => advanceBy n t.advance

theorem rest_advance (t : YamlText) : t.advance.rest = t.rest.tail := by
  unfold advance
  split
  · next h => simp [h]
  · next c cs h =>
    simp only [h, List.tail_cons]
    split
    · rfl
    · split <;> rfl

theorem rest_advanceBy (n : Nat) (t : YamlText) : (advanceBy n t).rest = t.rest.drop n := by
  induction n generalizing t with
  | zero => simp [advanceBy]
  | succ n ih => rw [advanceBy, ih, rest_advance, List.drop_tail]

end YamlText

namespace YamlRead

/-- Refuses the text. -/
def refuse {α : Type} : YamlRead α :=
  throw .malformed

/-- The characters left. -/
def rest : YamlRead (List Char) := do
  return (← get).rest

def column : YamlRead Nat := do
  return (← get).column

/-- More steps than any repetition takes, since each of them reads a character. -/
def enough : YamlRead Nat := do
  return (← get).size + 2

/-- Goes past one character. -/
def skip : YamlRead Unit :=
  modify YamlText.advance

/-- Goes past a number of characters. -/
def skipMany (n : Nat) : YamlRead Unit :=
  modify (YamlText.advanceBy n)

/-- Reads the longest run of characters of a class. -/
def takeWhile (p : Char → Bool) : YamlRead (List Char) := do
  let run := (← rest).takeWhile p
  skipMany run.length
  return run

/-- Goes past the characters of a class. -/
def skipWhile (p : Char → Bool) : YamlRead Unit := do
  let _ ← takeWhile p

/-- Goes past the given character, which has to be there. -/
def expect (c : Char) : YamlRead Unit := do
  if (← rest).head? = some c then skip else refuse

/-- A character that ends a line: a line feed, the next-line control or one of the two separators. -/
def isBreak (c : Char) : Bool :=
  c = '\n' || c = '\u0085' || c = '\u2028' || c = '\u2029'

/-- Whether a text is at its end, at a break or at a blank. -/
def gapsHere : List Char → Bool
  | [] => true
  | c :: _ => Text.isTabOrSpace c || isBreak c

/-- Whether a text is at its end, or at a break. -/
def breaksHere : List Char → Bool
  | [] => true
  | c :: _ => isBreak c

/-- Whether a text is at its end, at a break or at a space. -/
def partsHere : List Char → Bool
  | ' ' :: _ => true
  | cs => breaksHere cs

/-- Whether the mark that begins a document stands here. -/
def isStart : List Char → Bool
  | '-' :: '-' :: '-' :: cs => gapsHere cs
  | _ => false

/-- Whether the mark that ends a document stands here. -/
def isEnd : List Char → Bool
  | '.' :: '.' :: '.' :: cs => gapsHere cs
  | _ => false

/-- Whether a mark between documents stands here. -/
def isMark (cs : List Char) : Bool :=
  isStart cs || isEnd cs

/-- Goes past a line end, if there is one: what it stands for. The separators stand for themselves. -/
def lineEnd : YamlRead (List Char) := do
  match ← rest with
  | c :: _ =>
    if isBreak c then
      skip
      return [if c = '\u0085' then '\n' else c]
    else return []
  | [] => return []

/-- Goes past a comment, if there is one. -/
def skipComment : YamlRead Unit := do
  if (← rest).head? = some '#' then skipWhile fun c => !isBreak c

/-- Goes to the next line. Nothing but a comment may stand before it. -/
def finishLine : YamlRead Unit := do
  skipWhile (· = ' ')
  skipComment
  if breaksHere (← rest) then
    let _ ← lineEnd
  else refuse

/-- What stands between two lines of a scalar that are joined, given the line end after the first and
those of the empty lines: a line end alone is a space. -/
def join (first : List Char) (more : List Char) : List Char :=
  (if first ≠ ['\n'] then first else if more.isEmpty then [' '] else []) ++ more

end YamlRead

end Stencil
