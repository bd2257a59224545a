/-!
# Number — machine words

Machine arithmetic. Sums, differences and products wrap around in signed 32-bit words; division goes
toward zero and is undefined by zero. The remainder is not wrapped: it is smaller than the divisor.
-/

namespace Stencil.Number

-- The powers here are those of the core library, whatever else is imported.
attribute [local instance (high)] instPowNat

/-- The number of 32-bit words. -/
def wordCount : Nat := 2 ^ (32 : Nat)

/-- The signed 32-bit word that is congruent to a number. -/
def wrap (n : Int) : Int :=
  n.bmod wordCount

/-- The largest signed 32-bit word. -/
def maxWord : Int := 2 ^ (31 : Nat) - 1

/-- The smallest signed 32-bit word. -/
def minWord : Int := -(2 ^ (31 : Nat))

/-- How many digits an integer may be written with. -/
def longestInteger : Nat := 4300

/-- Whether a number is a signed 32-bit word. -/
def isWord (n : Int) : Bool :=
  minWord ≤ n && n ≤ maxWord

/-- The quotient rounded toward zero, as a word; none for a zero divisor. -/
def quotient? (a b : Int) : Option Int :=
  if b = 0 then none else some (wrap (a.tdiv b))

/-- The remainder with the sign of the dividend; none for a zero divisor. -/
def remainder? (a b : Int) : Option Int :=
  if b = 0 then none else some (a - b * a.tdiv b)

theorem isWord_iff {n : Int} : isWord n = true ↔ -2147483648 ≤ n ∧ n ≤ 2147483647 := by
  rw [isWord, Bool.and_eq_true, decide_eq_true_eq, decide_eq_true_eq]
  simp [minWord, maxWord]

theorem isWord_wrap (n : Int) : isWord (wrap n) = true := by
  have h₁ := Int.le_bmod (x := n) (m := wordCount) (by decide)
  have h₂ := Int.bmod_lt (x := n) (m := wordCount) (by decide)
  rw [isWord_iff]
  simp only [wrap, wordCount] at *
  omega

theorem wrap_of_isWord {n : Int} (h : isWord n = true) : wrap n = n := by
  rw [isWord_iff] at h
  simp only [wrap, wordCount]
  exact Int.bmod_eq_of_le (by omega) (by omega)

theorem remainder?_eq_tmod {a b : Int} (h : b ≠ 0) : remainder? a b = some (a.tmod b) := by
  simp [remainder?, h, Int.tmod_def]

end Stencil.Number
