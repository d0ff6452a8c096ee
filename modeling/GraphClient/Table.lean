/-! Tables from names to values that keep the order in which the names came. A name that comes again
keeps its place and gets the new value. -/

namespace GraphClient

/-- A table from names to values, in order of arrival. -/
structure Table (α : Type) where
  entries : List (String × α)
  deriving Repr

namespace Table

variable {α : Type}

def empty : Table α := ⟨[]⟩

/-- The entries with a value put in place of the one of that name, or at the end. -/
def insertEntry (name : String) (value : α) : List (String × α) → List (String × α)
  | [] => [(name, value)]
  | (other, v) :: rest =>
      if name = other then (name, value) :: rest else (other, v) :: insertEntry name value rest

def insert (table : Table α) (name : String) (value : α) : Table α :=
  ⟨insertEntry name value table.entries⟩

def get? (table : Table α) (name : String) : Option α := table.entries.lookup name

def contains (table : Table α) (name : String) : Bool := (table.get? name).isSome

def names (table : Table α) : List String := table.entries.map (·.1)

def values (table : Table α) : List α := table.entries.map (·.2)

def erase (table : Table α) (name : String) : Table α :=
  ⟨table.entries.filter fun e => e.1 ≠ name⟩

/-- The table of a list, the last of one name kept. -/
def ofList (entries : List (String × α)) : Table α :=
  entries.foldl (fun table e => table.insert e.1 e.2) empty

instance : EmptyCollection (Table α) := ⟨empty⟩

@[simp] theorem get?_empty (name : String) : (empty : Table α).get? name = none := rfl

theorem lookup_cons_eq (name other : String) (value : α) (rest : List (String × α)) :
    ((other, value) :: rest).lookup name = if name = other then some value else rest.lookup name := by
  by_cases h : name = other
  · simp [h]
  · simp [List.lookup_cons, h, beq_false_of_ne h]

theorem get?_insert (table : Table α) (name other : String) (value : α) :
    (table.insert name value).get? other = if other = name then some value else table.get? other := by
  obtain ⟨entries⟩ := table
  simp only [insert, get?]
  induction entries with
  | nil => simp only [insertEntry, lookup_cons_eq]
  | cons e rest ih =>
      obtain ⟨n, v⟩ := e
      by_cases hn : name = n
      · subst hn
        by_cases h : other = name <;> simp only [insertEntry, lookup_cons_eq, h, if_true, if_false]
      · simp only [insertEntry, hn, if_false, lookup_cons_eq, ih]
        by_cases h : other = n
        · have hne : ¬ n = name := fun e => hn e.symm
          simp only [h, if_true, hne, if_false]
        · simp only [h, if_false]

theorem get?_erase (table : Table α) (name other : String) :
    (table.erase name).get? other = if other = name then none else table.get? other := by
  obtain ⟨entries⟩ := table
  simp only [erase, get?]
  induction entries with
  | nil => simp
  | cons e rest ih =>
      obtain ⟨n, v⟩ := e
      by_cases hn : n = name
      · subst hn
        simp only [List.filter_cons, ne_eq, not_true_eq_false, decide_false, Bool.false_eq_true, if_false,
          ih, lookup_cons_eq]
        by_cases h : other = n <;> simp only [h, if_true, if_false]
      · simp only [List.filter_cons, ne_eq, hn, not_false_eq_true, decide_true, if_true, lookup_cons_eq, ih]
        by_cases h : other = n
        · simp only [h, if_true, hn, if_false]
        · simp only [h, if_false]

theorem names_insert (table : Table α) (name : String) (value : α) :
    (table.insert name value).names =
      if name ∈ table.names then table.names else table.names ++ [name] := by
  obtain ⟨entries⟩ := table
  simp only [insert, names]
  induction entries with
  | nil => simp [insertEntry]
  | cons e rest ih =>
      obtain ⟨n, v⟩ := e
      by_cases hn : name = n
      · simp [insertEntry, hn]
      · by_cases hm : name ∈ rest.map (·.1)
        · simp only [insertEntry, hn, if_false, List.map_cons, ih, List.mem_cons, false_or, hm, if_true]
        · simp only [insertEntry, hn, if_false, List.map_cons, ih, List.mem_cons, false_or, hm,
            List.cons_append]

theorem mem_names_of_get? {table : Table α} {name : String} {value : α}
    (h : table.get? name = some value) : name ∈ table.names := by
  obtain ⟨entries⟩ := table
  simp only [get?, names] at h ⊢
  induction entries with
  | nil => simp at h
  | cons e rest ih =>
      obtain ⟨n, v⟩ := e
      rw [lookup_cons_eq] at h
      by_cases hn : name = n
      · simp [hn]
      · rw [if_neg hn] at h
        exact List.mem_cons_of_mem _ (ih h)

end Table

end GraphClient
