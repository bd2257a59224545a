import Stencil.Text.CharacterTable

/-!
# Text — case

Upper and lower case of texts, by the tables of Unicode. A character may have a form of several
characters, and the capital sigma has a lower-case form of its own at the end of a word.
-/

namespace Stencil.Text

/-- The case form of one character: the expansion if there is one, else the run it lies in. -/
def caseForm (runs : Array CaseRun) (expansions : Array CaseExpansion) (c : Char) : List Char :=
  let n := c.toNat
  match expansions.find? (·.code == n) with
  | some e => e.image.map Char.ofNat
  | none =>
    match runs.find? fun r => r.first ≤ n && n ≤ r.last && (n - r.first) % r.step == 0 with
    | some r => [Char.ofNat (n + r.shift).toNat]
    | none => [c]

/-- The upper-case form of a character. -/
def upperChar (c : Char) : List Char :=
  caseForm upperRuns upperExpansions c

/-- The lower-case form of a character, away from any word. -/
def lowerChar (c : Char) : List Char :=
  caseForm lowerRuns lowerExpansions c

/-- Whether the nearest character that is not passed over is a letter with case. -/
def meetsCased : List Char → Bool
  | [] => false
  | c :: cs => if inRanges caseIgnorableRanges c then meetsCased cs else inRanges casedRanges c

/-- Lower case of the rest of a text, given what stands before it, nearest character first. A capital
sigma after a letter and before none is written in its final form. -/
def lowerFrom (before : List Char) : List Char → List Char
  | [] => []
  | c :: cs =>
    let form :=
      if c = 'Σ' then [if meetsCased before && !meetsCased cs then 'ς' else 'σ'] else lowerChar c
    form ++ lowerFrom (c :: before) cs

/-- A text in upper case. -/
def upper (s : String) : String :=
  String.ofList (s.toList.flatMap upperChar)

/-- A text in lower case. -/
def lower (s : String) : String :=
  String.ofList (lowerFrom [] s.toList)

/-- Whether a text is a number of digits, and not empty. -/
def isDigits (s : String) : Bool :=
  !s.isEmpty && s.toList.all (inRanges digitRanges)

/-- The text with its first letter in the other case. A letter whose upper and lower case are both
different from it stays as it is. -/
def flipInitial (s : String) : String :=
  match s.toList with
  | [] => s
  | c :: cs =>
    if upperChar c = [c] then String.ofList (lowerFrom [] [c] ++ cs)
    else if lowerChar c = [c] then String.ofList (upperChar c ++ cs)
    else s

end Stencil.Text
