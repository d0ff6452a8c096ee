/-! Numbered cells. An arena holds a value in every cell that it has room for, and all other cells are
blank. Reading is total, writing makes room where it has to, so the laws of cells hold for all numbers. -/

namespace GraphClient

/-- Cells numbered from zero. -/
structure Arena (α : Type) where
  cells : Array α
  deriving Repr

namespace Arena

variable {α : Type}

def empty : Arena α := ⟨#[]⟩

instance : Inhabited (Arena α) := ⟨empty⟩

/-- The number of cells, which is the number of the next one. -/
def size (a : Arena α) : Nat := a.cells.size

@[simp] theorem size_empty : (empty : Arena α).size = 0 := rfl

variable [Inhabited α]

def get (a : Arena α) (i : Nat) : α := a.cells.getD i default

/-- Puts a value into a cell, and blank ones into all cells before it that there was no room for. -/
def set (a : Arena α) (i : Nat) (value : α) : Arena α :=
  if i < a.size then ⟨a.cells.setIfInBounds i value⟩
  else ⟨(a.cells ++ Array.replicate (i - a.size) default).push value⟩

/-- Changes the value of a cell. -/
def modify (a : Arena α) (i : Nat) (change : α → α) : Arena α := a.set i (change (a.get i))

/-- Puts a value into the next cell. -/
def push (a : Arena α) (value : α) : Arena α := a.set a.size value

theorem get_eq_default {a : Arena α} {i : Nat} (h : a.size ≤ i) : a.get i = default := by
  simp only [get, Array.getD_eq_getD_getElem?]
  rw [Array.getElem?_eq_none h]
  rfl

theorem size_set (a : Arena α) (i : Nat) (value : α) : (a.set i value).size = max a.size (i + 1) := by
  simp only [set]
  split
  · rename_i h
    have hs : (Array.setIfInBounds a.cells i value).size = a.size := Array.size_setIfInBounds
    simp only [size] at h hs ⊢
    omega
  · rename_i h
    have hs : ((a.cells ++ Array.replicate (i - a.size) default).push value).size =
        a.size + (i - a.size) + 1 := by
      rw [Array.size_push, Array.size_append, Array.size_replicate]
      rfl
    simp only [size] at h hs ⊢
    omega

@[simp] theorem get_set_self (a : Arena α) (i : Nat) (value : α) : (a.set i value).get i = value := by
  simp only [set]
  split
  · rename_i h
    simp only [get, Array.getD_eq_getD_getElem?]
    rw [Array.getElem?_setIfInBounds_self_of_lt h]
    rfl
  · rename_i h
    have hs : (a.cells ++ Array.replicate (i - a.size) default).size = i := by
      rw [Array.size_append, Array.size_replicate]
      simp only [size] at h ⊢
      omega
    simp only [get, Array.getD_eq_getD_getElem?, Array.getElem?_push, hs, if_true]
    rfl

theorem get_set_ne (a : Arena α) {i j : Nat} (value : α) (h : j ≠ i) :
    (a.set i value).get j = a.get j := by
  simp only [set]
  split
  · simp only [get, Array.getD_eq_getD_getElem?]
    rw [Array.getElem?_setIfInBounds_ne (Ne.symm h)]
  · rename_i hi
    have hs : (a.cells ++ Array.replicate (i - a.size) default).size = i := by
      rw [Array.size_append, Array.size_replicate]
      simp only [size] at hi ⊢
      omega
    simp only [get, Array.getD_eq_getD_getElem?, Array.getElem?_push, hs, if_neg h,
      Array.getElem?_append, Array.getElem?_replicate]
    by_cases hj : j < a.cells.size
    · simp only [if_pos hj]
    · rw [if_neg hj, Array.getElem?_eq_none (by omega)]
      split <;> rfl

theorem get_set (a : Arena α) (i j : Nat) (value : α) :
    (a.set i value).get j = if j = i then value else a.get j := by
  by_cases h : j = i
  · subst h
    simp
  · rw [if_neg h, get_set_ne a value h]

theorem get_modify (a : Arena α) (i j : Nat) (change : α → α) :
    (a.modify i change).get j = if j = i then change (a.get j) else a.get j := by
  rw [modify, get_set]
  split <;> simp_all

theorem size_modify (a : Arena α) (i : Nat) (change : α → α) :
    (a.modify i change).size = max a.size (i + 1) := size_set ..

theorem size_push (a : Arena α) (value : α) : (a.push value).size = a.size + 1 := by
  rw [push, size_set]
  omega

theorem get_push (a : Arena α) (i : Nat) (value : α) :
    (a.push value).get i = if i = a.size then value else a.get i := get_set ..

end Arena

end GraphClient
