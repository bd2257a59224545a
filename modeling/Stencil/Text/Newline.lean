/-!
# Text — line ends

Line ends. A text may end its lines with a carriage return, a line feed or both; `unifyNewlines`
writes a single line feed for each.
-/

namespace Stencil.Text

/-- Writes every line end as one line feed. -/
def unifyNewlines : List Char → List Char
  | [] => []
  | '\r' :: '\n' :: rest => '\n' :: unifyNewlines rest
  | c :: rest => (if c = '\r' then '\n' else c) :: unifyNewlines rest

/-- The number of line feeds. -/
def newlines (cs : List Char) : Nat :=
  cs.count '\n'

@[simp] theorem newlines_nil : newlines [] = 0 := rfl

theorem newlines_cons (c : Char) (cs : List Char) :
    newlines (c :: cs) = newlines cs + if c = '\n' then 1 else 0 := by
  simp [newlines, List.count_cons]

theorem return_not_mem_unifyNewlines (cs : List Char) : '\r' ∉ unifyNewlines cs := by
  fun_induction unifyNewlines cs with
  | case1 => simp
  | case2 rest ih => simpa using ih
  | case3 c rest _ ih =>
    by_cases h : c = '\r'
    · simpa [h] using ih
    · simpa [h, Ne.symm h] using ih

theorem unifyNewlines_of_no_return {cs : List Char} (h : '\r' ∉ cs) : unifyNewlines cs = cs := by
  fun_induction unifyNewlines cs with
  | case1 => rfl
  | case2 rest ih => simp at h
  | case3 c rest _ ih =>
    simp only [List.mem_cons, not_or] at h
    rw [ih h.2, if_neg (Ne.symm h.1)]

end Stencil.Text
