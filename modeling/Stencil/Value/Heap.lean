/-!
# Value — cells

Numbered cells. A cell that was never allocated reads as the default value of its type, so that reading
is total; `Heap.get_set`, `Heap.get_modify` and `Heap.get_alloc` say what reading gives after a change.
-/

namespace Stencil

/-- A growing row of cells. -/
structure Heap (α : Type) where
  cells : Array α := #[]
  deriving Inhabited

namespace Heap

variable {α : Type}

/-- The number of cells, which is the number of the next one. -/
def size (h : Heap α) : Nat :=
  h.cells.size

/-- Changes the content of a cell that exists. -/
def set (h : Heap α) (i : Nat) (a : α) : Heap α :=
  ⟨h.cells.setIfInBounds i a⟩

/-- Applies a function to the content of a cell that exists. -/
def modify (h : Heap α) (i : Nat) (f : α → α) : Heap α :=
  ⟨h.cells.modify i f⟩

/-- Adds a cell; its number was the size of the heap. -/
def alloc (h : Heap α) (a : α) : Heap α :=
  ⟨h.cells.push a⟩

@[simp] theorem size_set (h : Heap α) (i : Nat) (a : α) : (h.set i a).size = h.size := by
  simp [size, set]

@[simp] theorem size_modify (h : Heap α) (i : Nat) (f : α → α) : (h.modify i f).size = h.size := by
  simp [size, modify]

@[simp] theorem size_alloc (h : Heap α) (a : α) : (h.alloc a).size = h.size + 1 := by
  simp [size, alloc]

theorem set_set (h : Heap α) (i : Nat) (a b : α) : (h.set i a).set i b = h.set i b := by
  simp [set, Array.setIfInBounds_setIfInBounds]

theorem set_comm (h : Heap α) {i j : Nat} (hij : i ≠ j) (a b : α) :
    (h.set i a).set j b = (h.set j b).set i a := by
  simp only [set, Array.setIfInBounds_comm a b hij]

theorem set_of_ge (h : Heap α) {i : Nat} (hi : h.size ≤ i) (a : α) : h.set i a = h := by
  rw [set, Array.setIfInBounds_eq_of_size_le hi]

variable [Inhabited α]

/-- The content of a cell. -/
def get (h : Heap α) (i : Nat) : α :=
  h.cells.getD i default

theorem get_set {h : Heap α} {i : Nat} (hi : i < h.size) (a : α) (j : Nat) :
    (h.set i a).get j = if j = i then a else h.get j := by
  simp only [get, set, size] at *
  by_cases hj : j = i
  · subst hj
    simp [hi]
  · simp [hj, Array.getElem?_setIfInBounds_ne (Ne.symm hj)]

theorem get_set_of_ne (h : Heap α) {i j : Nat} (hij : j ≠ i) (a : α) : (h.set i a).get j = h.get j := by
  rcases Nat.lt_or_ge i h.size with hi | hi
  · rw [get_set hi, if_neg hij]
  · rw [set_of_ge h hi]

theorem get_modify {h : Heap α} {i : Nat} (hi : i < h.size) (f : α → α) (j : Nat) :
    (h.modify i f).get j = if j = i then f (h.get i) else h.get j := by
  simp only [get, modify, size, Array.getD_eq_getD_getElem?, Array.getElem?_modify] at *
  by_cases hj : j = i
  · subst hj
    simp [hi]
  · simp [hj, Ne.symm hj]

theorem get_alloc (h : Heap α) (a : α) (j : Nat) :
    (h.alloc a).get j = if j = h.size then a else h.get j := by
  simp only [get, alloc, size, Array.getD_eq_getD_getElem?, Array.getElem?_push]
  by_cases hj : j = h.cells.size <;> simp [hj]

end Heap

end Stencil
