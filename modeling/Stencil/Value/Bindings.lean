/-!
# Value — names

Named things. A name has at most one binding that can be seen; `get?_put`, `get?_remove` and `get?_append`
say what a name stands for after a change.
-/

namespace Stencil

/-- Names with what they stand for. -/
abbrev Bindings (α : Type) := List (String × α)

namespace Bindings

variable {α : Type}

/-- What a name stands for. -/
def get? (b : Bindings α) (x : String) : Option α :=
  match b with
  | [] => none
  | (y, a) :: rest => if y = x then some a else get? rest x

/-- Whether a name stands for something. -/
def has (b : Bindings α) (x : String) : Bool :=
  (get? b x).isSome

/-- Binds a name, in the place of its former binding or at the end. -/
def put (b : Bindings α) (x : String) (a : α) : Bindings α :=
  match b with
  | [] => [(x, a)]
  | (y, c) :: rest => if y = x then (y, a) :: rest else (y, c) :: put rest x a

/-- Removes the bindings of a name. -/
def remove (b : Bindings α) (x : String) : Bindings α :=
  match b with
  | [] => []
  | (y, c) :: rest => if y = x then remove rest x else (y, c) :: remove rest x

/-- Binds the names of a list one after another. -/
def ofList (pairs : List (String × α)) : Bindings α :=
  pairs.foldl (fun b p => b.put p.1 p.2) []

/-- The names in order of first binding. -/
def names (b : Bindings α) : List String :=
  b.map (·.1)

theorem get?_put (b : Bindings α) (x : String) (a : α) (y : String) :
    (b.put x a).get? y = if y = x then some a else b.get? y := by
  induction b with
  | nil => simp [put, get?, eq_comm]
  | cons p rest ih =>
    obtain ⟨z, c⟩ := p
    by_cases hz : z = x <;> by_cases hy : y = x <;> simp [put, get?, hz, hy, ih, eq_comm] <;> grind

theorem get?_remove (b : Bindings α) (x y : String) :
    (b.remove x).get? y = if y = x then none else b.get? y := by
  induction b with
  | nil => simp [remove, get?]
  | cons p rest ih =>
    obtain ⟨z, c⟩ := p
    by_cases hz : z = x <;> simp [remove, get?, hz, ih] <;> grind

theorem get?_append (b b' : Bindings α) (x : String) :
    (b ++ b' : Bindings α).get? x = (b.get? x).or (b'.get? x) := by
  induction b with
  | nil => simp [get?]
  | cons p rest ih =>
    obtain ⟨y, a⟩ := p
    by_cases hy : y = x <;> simp [get?, hy, ih]

/-- Binding a name to what it stands for changes nothing. -/
theorem put_of_get? {b : Bindings α} {x : String} {a : α} (h : b.get? x = some a) : b.put x a = b := by
  induction b with
  | nil => simp [get?] at h
  | cons p rest ih =>
    obtain ⟨y, c⟩ := p
    by_cases hy : y = x
    · simp_all [get?, put]
    · simp [get?, hy] at h
      simp [put, hy, ih h]

theorem mem_names_iff {b : Bindings α} {x : String} : x ∈ b.names ↔ (b.get? x).isSome := by
  induction b with
  | nil => simp [names, get?]
  | cons p rest ih =>
    obtain ⟨y, a⟩ := p
    have hmem : x ∈ names ((y, a) :: rest) ↔ x = y ∨ x ∈ names rest := List.mem_cons
    rw [hmem]
    by_cases hy : y = x
    · simp [get?, hy]
    · simp [get?, hy, Ne.symm hy, ih]

/-- No name is bound twice by binding one name after another. -/
theorem nodup_names_put {b : Bindings α} (h : b.names.Nodup) (x : String) (a : α) :
    (b.put x a).names.Nodup := by
  induction b with
  | nil => simp [put, names]
  | cons p rest ih =>
    obtain ⟨y, c⟩ := p
    obtain ⟨hy, hrest⟩ := List.nodup_cons.1 h
    rw [put]
    split
    · exact h
    · rename_i hne
      refine List.nodup_cons.2 ⟨fun hmem => hy ?_, ih hrest⟩
      have hput : y ∈ names (put rest x a) := hmem
      rw [mem_names_iff, get?_put, if_neg hne, ← mem_names_iff] at hput
      exact hput

end Bindings

end Stencil
