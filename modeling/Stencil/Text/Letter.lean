/-!
# Text — characters of names

The characters of names. Names are written in ASCII: a letter, then letters, digits, hyphens and
underscores.
-/

namespace Stencil.Text

/-- An ASCII letter, which is what a name begins with. -/
def isLetter (c : Char) : Bool :=
  ('a' ≤ c && c ≤ 'z') || ('A' ≤ c && c ≤ 'Z')

/-- An ASCII digit. -/
def isDigit (c : Char) : Bool :=
  '0' ≤ c && c ≤ '9'

/-- A character that continues a name. -/
def isNameChar (c : Char) : Bool :=
  isLetter c || isDigit c || c == '-' || c == '_'

theorem isNameChar_of_isLetter {c : Char} (h : isLetter c = true) : isNameChar c = true := by
  simp [isNameChar, h]

theorem isNameChar_of_isDigit {c : Char} (h : isDigit c = true) : isNameChar c = true := by
  simp [isNameChar, h]

end Stencil.Text
