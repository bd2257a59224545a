import Stencil.Calendar.Moment
import Stencil.Number.Word

/-!
# YAML — problems

Why a text has no value as YAML. The ways in which a text is not well formed are not told apart; what a
well-formed scalar or key can be wrong in, is.
-/

namespace Stencil

/-- Why a text has no value as YAML. A time that is rounded up may lie after the last year there is. -/
inductive YamlProblem where
  | malformed
  | unknownVersion (major minor : Nat)
  | noCharacter
  | notBoolean (word : String)
  | noDigits
  | notInteger (base : Nat) (text : String)
  | longInteger (digits : Nat)
  | notFloat (text : String)
  | badDate (problem : DateProblem)
  | dateOverflow
  | unusableKey (typeName : String)
  | repeatedKey
  deriving DecidableEq, Repr, Inhabited

/-- The problem in words. -/
def YamlProblem.message : YamlProblem → String
  | malformed => "Invalid YAML"
  | unknownVersion major minor => s!"({major}, {minor})"
  | noCharacter => "chr() arg not in range(0x110000)"
  | notBoolean word => Text.quoted word
  | noDigits => "string index out of range"
  | notInteger base text => s!"invalid literal for int() with base {base}: {Text.quoted text}"
  | longInteger digits =>
    s!"Exceeds the limit ({Number.longestInteger} digits) for integer string conversion: " ++
      s!"value has {digits} digits; use sys.set_int_max_str_digits() to increase the limit"
  | notFloat text => s!"could not convert string to float: {Text.quoted text}"
  | badDate problem => problem.message
  | dateOverflow => "date value out of range"
  | unusableKey typeName => s!"unhashable type: {Text.quoted typeName}"
  | repeatedKey => ""

/-- A result, or the problem that there is none for. -/
abbrev YamlResult := Except YamlProblem

end Stencil
