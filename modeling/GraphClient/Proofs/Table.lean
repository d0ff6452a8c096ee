import GraphClient.Table
import Mathlib.Data.List.Induction
import Mathlib.Data.List.Nodup

/-! Tables of lists. A table made from a list has every name once, and nothing in it that was not in the
list; where names are there once, an entry is what is found under its name. -/

namespace GraphClient.Table

variable {α : Type}

theorem names_insert_nodup {table : Table α} (hnodup : table.names.Nodup) (name : String) (value : α) :
    (table.insert name value).names.Nodup := by
  rw [names_insert]
  split
  · exact hnodup
  · rename_i hnew
    apply hnodup.append (List.nodup_singleton name)
    intro other hother hmem
    rw [List.mem_singleton] at hmem
    exact hnew (hmem ▸ hother)

theorem mem_names_insert {table : Table α} {name other : String} {value : α}
    (hmem : other ∈ (table.insert name value).names) : other ∈ table.names ∨ other = name := by
  rw [names_insert] at hmem
  split at hmem
  · exact .inl hmem
  · exact (List.mem_append.1 hmem).imp_right List.mem_singleton.1

theorem mem_insertEntry {name : String} {value : α} {entries : List (String × α)} {e : String × α}
    (he : e ∈ insertEntry name value entries) : e = (name, value) ∨ e ∈ entries := by
  induction entries with
  | nil => exact .inl (List.mem_singleton.1 he)
  | cons first rest ih =>
      rw [insertEntry] at he
      split at he
      · exact (List.mem_cons.1 he).imp_right (List.mem_cons_of_mem _)
      · rcases List.mem_cons.1 he with heq | he
        · exact .inr (heq ▸ List.mem_cons_self)
        · exact (ih he).imp_right (List.mem_cons_of_mem _)

theorem foldl_insert_nodup (entries : List (String × α)) {table : Table α} (hnodup : table.names.Nodup) :
    (entries.foldl (fun table e => table.insert e.1 e.2) table).names.Nodup := by
  induction entries generalizing table with
  | nil => exact hnodup
  | cons e rest ih => exact ih (names_insert_nodup hnodup e.1 e.2)

theorem names_ofList_nodup (entries : List (String × α)) : (ofList entries).names.Nodup :=
  foldl_insert_nodup entries List.nodup_nil

theorem mem_foldl_insert {entries : List (String × α)} {table : Table α} {e : String × α}
    (he : e ∈ (entries.foldl (fun table e => table.insert e.1 e.2) table).entries) :
    e ∈ entries ∨ e ∈ table.entries := by
  induction entries generalizing table with
  | nil => exact .inr he
  | cons first rest ih =>
      rcases ih he with hrest | htable
      · exact .inl (List.mem_cons_of_mem _ hrest)
      · refine (mem_insertEntry htable).imp_left fun heq => ?_
        rw [heq]
        exact List.mem_cons_self

theorem mem_of_mem_ofList {entries : List (String × α)} {e : String × α} (he : e ∈ (ofList entries).entries) :
    e ∈ entries :=
  (mem_foldl_insert he).elim id fun hnil => absurd hnil List.not_mem_nil

theorem mem_of_get? {table : Table α} {name : String} {value : α} (hget : table.get? name = some value) :
    (name, value) ∈ table.entries := by
  obtain ⟨before, after, heq, -⟩ := List.lookup_eq_some_iff.1 hget
  rw [heq]
  exact List.mem_append_right _ List.mem_cons_self

theorem get?_of_mem {table : Table α} (hnodup : table.names.Nodup) {name : String} {value : α}
    (hmem : (name, value) ∈ table.entries) : table.get? name = some value := by
  obtain ⟨entries⟩ := table
  induction entries with
  | nil => exact absurd hmem List.not_mem_nil
  | cons e rest ih =>
      obtain ⟨other, first⟩ := e
      rw [get?, lookup_cons_eq]
      rw [names, List.map_cons, List.nodup_cons] at hnodup
      rcases List.mem_cons.1 hmem with heq | hrest
      · cases heq
        rw [if_pos rfl]
      · rw [if_neg, ← ih hnodup.2 hrest]
        · rfl
        · rintro rfl
          exact hnodup.1 (List.mem_map.2 ⟨_, hrest, rfl⟩)

theorem contains_iff {table : Table α} {name : String} : table.contains name = true ↔ name ∈ table.names := by
  constructor
  · intro hcontains
    obtain ⟨value, hget⟩ := Option.isSome_iff_exists.1 hcontains
    exact mem_names_of_get? hget
  · intro hmem
    obtain ⟨e, he, rfl⟩ := List.mem_map.1 hmem
    rw [contains, get?, Option.isSome_iff_ne_none]
    exact fun hnone => bne_iff_ne.1 (List.lookup_eq_none_iff.1 hnone e he) rfl

/-- Of the values of one name in a list, the last one is found. -/
theorem get?_ofList (entries : List (String × α)) (name : String) :
    (ofList entries).get? name = entries.reverse.lookup name := by
  induction entries using List.reverseRecOn with
  | nil => rfl
  | append_singleton entries e ih =>
      obtain ⟨other, value⟩ := e
      rw [List.reverse_concat, lookup_cons_eq, ← ih, ofList, List.foldl_concat, get?_insert]
      rfl

theorem get?_ofList_of_mem {entries : List (String × α)} (hnodup : (entries.map (·.1)).Nodup) {name : String}
    {value : α} (hmem : (name, value) ∈ entries) : (ofList entries).get? name = some value := by
  have hreverse : (Table.mk entries.reverse).names.Nodup := by
    rw [names, List.map_reverse, List.nodup_reverse]
    exact hnodup
  rw [get?_ofList]
  exact get?_of_mem hreverse (List.mem_reverse.2 hmem)

/-- Entries under other names do not matter. -/
theorem get?_ofList_filter (entries : List (String × α)) {keep : String → Bool} {name : String}
    (hkeep : keep name = true) :
    (ofList (entries.filter fun e => keep e.1)).get? name = (ofList entries).get? name := by
  rw [get?_ofList, get?_ofList, ← List.filter_reverse]
  generalize entries.reverse = entries
  induction entries with
  | nil => rfl
  | cons e rest ih =>
      obtain ⟨other, value⟩ := e
      rw [lookup_cons_eq, List.filter_cons]
      by_cases hname : name = other
      · subst hname
        rw [if_pos hkeep, if_pos rfl, lookup_cons_eq, if_pos rfl]
      · rw [if_neg hname, ← ih]
        split
        · rw [lookup_cons_eq, if_neg hname]
        · rfl

/-- Lists that go together entry by entry have tables that do. -/
theorem get?_ofList_rel {β : Type} {R : α → β → Prop} {entries : List (String × α)}
    {entries' : List (String × β)}
    (hall : List.Forall₂ (fun e e' => e'.1 = e.1 ∧ R e.2 e'.2) entries entries') (name : String) :
    Option.Rel R ((ofList entries).get? name) ((ofList entries').get? name) := by
  rw [get?_ofList, get?_ofList]
  have hreverse := List.rel_reverse hall
  generalize entries.reverse = entries, entries'.reverse = entries' at hreverse
  induction hreverse with
  | nil => exact .none
  | @cons e e' _ _ hfirst _ ih =>
      obtain ⟨other, value⟩ := e
      obtain ⟨other', value'⟩ := e'
      obtain ⟨hother, hvalue⟩ := hfirst
      dsimp only at hother hvalue
      subst hother
      rw [lookup_cons_eq, lookup_cons_eq]
      split
      · exact .some hvalue
      · exact ih

theorem insert_of_notMem {table : Table α} {name : String} (hnew : name ∉ table.names) (value : α) :
    table.insert name value = ⟨table.entries ++ [(name, value)]⟩ := by
  obtain ⟨entries⟩ := table
  rw [insert, Table.mk.injEq]
  induction entries with
  | nil => rfl
  | cons e rest ih =>
      rw [names, List.map_cons, List.mem_cons, not_or] at hnew
      rw [insertEntry, if_neg hnew.1, ih hnew.2]
      rfl

/-- Of entries that have every name once, the same one is found in any order. -/
theorem get?_perm {table table' : Table α} (hperm : table.entries.Perm table'.entries)
    (hnodup : table.names.Nodup) (name : String) : table.get? name = table'.get? name := by
  have hnodup' : table'.names.Nodup := (hperm.map _).nodup_iff.1 hnodup
  refine Option.ext fun value => ⟨fun hget => ?_, fun hget => ?_⟩
  · exact get?_of_mem hnodup' (hperm.mem_iff.1 (mem_of_get? hget))
  · exact get?_of_mem hnodup (hperm.mem_iff.2 (mem_of_get? hget))

/-- The table with every value changed. -/
def map {β : Type} (f : α → β) (table : Table α) : Table β := ⟨table.entries.map fun e => (e.1, f e.2)⟩

variable {β : Type} {f g : α → β}

theorem get?_map (f : α → β) (table : Table α) (name : String) :
    (table.map f).get? name = (table.get? name).map f := by
  obtain ⟨entries⟩ := table
  induction entries with
  | nil => rfl
  | cons e rest ih =>
      obtain ⟨other, first⟩ := e
      simp only [map, get?, List.map_cons, lookup_cons_eq] at ih ⊢
      by_cases hname : name = other
      · rw [if_pos hname, if_pos hname, Option.map_some]
      · rw [if_neg hname, if_neg hname, ih]

theorem map_map {γ : Type} (f : α → β) (k : β → γ) (table : Table α) :
    (table.map f).map k = table.map fun value => k (f value) := by
  rw [map, map, map, Table.mk.injEq]
  exact List.map_map

theorem map_congr {table : Table α} (heq : ∀ e ∈ table.entries, f e.2 = g e.2) :
    table.map f = table.map g := by
  rw [map, map, Table.mk.injEq]
  apply List.map_congr_left
  intro e he
  rw [heq e he]

theorem map_insert {table : Table α} {name : String} {value : α} :
    (table.insert name value).map f = (table.map f).insert name (f value) := by
  obtain ⟨entries⟩ := table
  simp only [insert, map, Table.mk.injEq]
  induction entries with
  | nil => rfl
  | cons e rest ih =>
      simp only [insertEntry, List.map_cons]
      split
      · rfl
      · rw [List.map_cons, ih]

theorem insert_eq_self {table : Table α} {name : String} {value : α} (hget : table.get? name = some value) :
    table.insert name value = table := by
  obtain ⟨entries⟩ := table
  rw [insert, Table.mk.injEq]
  induction entries with
  | nil => cases hget
  | cons e rest ih =>
      rw [get?, lookup_cons_eq] at hget
      rw [insertEntry]
      by_cases hname : name = e.1
      · rw [if_pos hname, Option.some.injEq] at hget
        rw [if_pos hname, hname, ← hget]
      · rw [if_neg hname] at hget
        rw [if_neg hname, ih hget]

/-- Inserting a value, when the changes that are made agree on all other entries. -/
theorem map_insert_congr {table : Table α} (hnodup : table.names.Nodup) {name : String} (value : α)
    (heq : ∀ e ∈ table.entries, e.1 ≠ name → f e.2 = g e.2) :
    (table.insert name value).map f = (table.map g).insert name (f value) := by
  obtain ⟨entries⟩ := table
  simp only [insert, map, Table.mk.injEq]
  induction entries with
  | nil => rfl
  | cons e rest ih =>
      obtain ⟨other, first⟩ := e
      rw [names, List.map_cons, List.nodup_cons] at hnodup
      simp only [insertEntry, List.map_cons]
      by_cases hname : name = other
      · subst hname
        rw [if_pos rfl, if_pos rfl, List.map_cons, List.cons.injEq]
        refine ⟨rfl, List.map_congr_left fun e he => ?_⟩
        have hne : e.1 ≠ name := fun h => hnodup.1 (List.mem_map.2 ⟨e, he, h⟩)
        rw [heq e (List.mem_cons_of_mem _ he) hne]
      · rw [if_neg hname, if_neg hname, List.map_cons, heq _ List.mem_cons_self (Ne.symm hname),
          ih hnodup.2 fun e he => heq e (List.mem_cons_of_mem _ he)]

end GraphClient.Table
