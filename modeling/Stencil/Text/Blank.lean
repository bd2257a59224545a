/-!
# Text — blanks

White space. `isSpace` is the class of characters that separate words; `isBlank` is the smaller class
that a template may leave out, which keeps the spaces that forbid a line break and the next-line
control.
-/

namespace Stencil.Text

/-- The white space of Unicode, with the four ASCII information separators. -/
def isSpace (c : Char) : Bool :=
  let n := c.toNat
  (0x09 ≤ n && n ≤ 0x0D) || (0x1C ≤ n && n ≤ 0x20) || n == 0x85 || n == 0xA0 || n == 0x1680 ||
    (0x2000 ≤ n && n ≤ 0x200A) || n == 0x2028 || n == 0x2029 || n == 0x202F || n == 0x205F ||
    n == 0x3000

/-- The spaces at which a line may not be broken, and the next-line control. -/
def isUnbreakable (c : Char) : Bool :=
  c == '\u00a0' || c == '\u2007' || c == '\u202f' || c == '\u0085'

/-- The white space that template text may leave out. -/
def isBlank (c : Char) : Bool :=
  isSpace c && !isUnbreakable c

/-- A tab or a space, which are the blanks inside a line. -/
def isTabOrSpace (c : Char) : Bool :=
  c == ' ' || c == '\t'

theorem isBlank_newline : isBlank '\n' = true := by decide

theorem isSpace_of_isBlank {c : Char} (h : isBlank c = true) : isSpace c = true := by
  simp only [isBlank, Bool.and_eq_true] at h
  exact h.1

end Stencil.Text
