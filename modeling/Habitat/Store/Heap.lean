/-!
# Heaps

Numbered cells that are allocated one after another. What a program does with a cell shows in two
equations: writing a cell changes what is read there, and nothing else. Only the newest cells can
be dropped.
-/
namespace Habitat

/-- Cells by number. -/
structure Heap (α : Type) where
  cells : Array α

namespace Heap

variable {α : Type}

def empty : Heap α := ⟨#[]⟩

/-- The number of the next cell. -/
def size (h : Heap α) : Nat := h.cells.size

def get? (h : Heap α) (i : Nat) : Option α := h.cells[i]?

/-- The contents of a cell, or a default for a number not in use. -/
def get [Inhabited α] (h : Heap α) (i : Nat) : α := h.cells.getD i default

/-- Replaces the contents of a cell in use. -/
def set (h : Heap α) (i : Nat) (a : α) : Heap α := ⟨h.cells.setIfInBounds i a⟩

/-- Changes the contents of a cell in use. -/
def modify (h : Heap α) (i : Nat) (f : α → α) : Heap α := ⟨h.cells.modify i f⟩

/-- A new cell; its number is the old size. -/
def push (h : Heap α) (a : α) : Heap α := ⟨h.cells.push a⟩

/-- Drops all but the first `n` cells. -/
def shrink (h : Heap α) (n : Nat) : Heap α := ⟨h.cells.shrink n⟩

theorem get_eq [Inhabited α] (h : Heap α) (i : Nat) : h.get i = (h.get? i).getD default := by
  simp [get, get?]

@[simp] theorem size_set (h : Heap α) (i : Nat) (a : α) : (h.set i a).size = h.size := by
  simp [size, set]

@[simp] theorem size_push (h : Heap α) (a : α) : (h.push a).size = h.size + 1 := by
  simp [size, push]

theorem get?_set_self (h : Heap α) (i : Nat) (a : α) (hi : i < h.size) :
    (h.set i a).get? i = some a := by
  simp [get?, set, size] at *
  simp [hi]

theorem get?_set_ne (h : Heap α) (i j : Nat) (a : α) (hij : i ≠ j) :
    (h.set i a).get? j = h.get? j := by
  simp [get?, set, Array.getElem?_setIfInBounds_ne hij]

/-- Changing a cell is reading and writing it. -/
theorem modify_eq_set [Inhabited α] (h : Heap α) (i : Nat) (f : α → α) :
    h.modify i f = h.set i (f (h.get i)) := by
  simp only [modify, set, mk.injEq]
  apply Array.ext
  · simp
  · intro j hj _
    have hj : j < h.cells.size := by simpa using hj
    by_cases hij : i = j
    · subst hij
      simp [Array.getElem_modify, get, hj]
    · simp [Array.getElem_modify, hj, hij]

theorem get?_modify (h : Heap α) (i j : Nat) (f : α → α) :
    (h.modify i f).get? j = if i = j then (h.get? j).map f else h.get? j := by
  simp [get?, modify, Array.getElem?_modify]

theorem get?_push_lt (h : Heap α) (a : α) (i : Nat) (hi : i < h.size) :
    (h.push a).get? i = h.get? i := by
  simp [get?, push, size] at *
  simp [Array.getElem?_push, Nat.ne_of_lt hi]

theorem get?_push_size (h : Heap α) (a : α) : (h.push a).get? h.size = some a := by
  simp [get?, push, size]

end Heap
end Habitat
