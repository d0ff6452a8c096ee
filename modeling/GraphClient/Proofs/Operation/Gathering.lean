import GraphClient.Operation.Selected
import GraphClient.Proofs.Table

/-! What is asked for of a type, and the selection that gathers it. The things asked for come one by one
and the same thing may come several times; a selection that gathers them has each field once, where it
came first, with everything that was asked for of it, at every depth (`Gathers`). Merging two selections
gathers what both of them gather (`Gathers.merge`), and every step of binding is such a merge. -/

namespace GraphClient

/-- One thing that is asked for of a type: its name, a field, or something of one of its object types. -/
inductive Asked
  | typename
  | leaf (name wireName : String)
  | nested (name wireName typeName : String) (inner : List Asked)
  | on (typeName : String) (inner : List Asked)

namespace Asked

/-- The field that is asked for, by its name in the schema. -/
def wireName? : Asked → Option String
  | leaf _ wireName | nested _ wireName _ _ => some wireName
  | _ => none

/-- The name in generated code of the field that is asked for. -/
def name? : Asked → Option String
  | leaf name _ | nested name _ _ _ => some name
  | _ => none

/-- The object type of which something is asked for. -/
def condition? : Asked → Option String
  | on typeName _ => some typeName
  | _ => none

/-- What is asked for of a field. -/
def inField (wireName : String) : Asked → List Asked
  | nested _ other _ inner => if other = wireName then inner else []
  | _ => []

/-- What is asked for of an object type. -/
def inVariant (typeName : String) : Asked → List Asked
  | on other inner => if other = typeName then inner else []
  | _ => []

/-- The fields asked for, each where it comes first. -/
def wireNames (asked : List Asked) : List String := (asked.filterMap wireName?).eraseDups

/-- The object types of which something is asked for, each where it comes first. -/
def conditions (asked : List Asked) : List String := (asked.filterMap condition?).eraseDups

/-- All that is asked for of a field. -/
def ofField (wireName : String) (asked : List Asked) : List Asked := asked.flatMap (inField wireName)

/-- All that is asked for of an object type. -/
def ofVariant (typeName : String) (asked : List Asked) : List Asked := asked.flatMap (inVariant typeName)

@[simp] theorem ofField_append (wireName : String) (as bs : List Asked) :
    ofField wireName (as ++ bs) = ofField wireName as ++ ofField wireName bs := List.flatMap_append

@[simp] theorem ofVariant_append (typeName : String) (as bs : List Asked) :
    ofVariant typeName (as ++ bs) = ofVariant typeName as ++ ofVariant typeName bs := List.flatMap_append

theorem mem_wireNames {wireName : String} {asked : List Asked} :
    wireName ∈ wireNames asked ↔ ∃ a ∈ asked, a.wireName? = some wireName := by
  rw [wireNames, List.mem_eraseDups, List.mem_filterMap]

theorem mem_conditions {typeName : String} {asked : List Asked} :
    typeName ∈ conditions asked ↔ ∃ a ∈ asked, a.condition? = some typeName := by
  rw [conditions, List.mem_eraseDups, List.mem_filterMap]

theorem mem_ofField {wireName : String} {asked : List Asked} {a : Asked} : a ∈ ofField wireName asked ↔
    ∃ name typeName inner, nested name wireName typeName inner ∈ asked ∧ a ∈ inner := by
  rw [ofField, List.mem_flatMap]
  constructor
  · rintro ⟨b, hb, ha⟩
    cases b with
    | nested name other typeName inner =>
        rw [inField] at ha
        split at ha
        · rename_i heq
          exact ⟨_, _, _, heq ▸ hb, ha⟩
        · cases ha
    | _ => cases ha
  · rintro ⟨name, typeName, inner, hmem, ha⟩
    exact ⟨_, hmem, by rwa [inField, if_pos rfl]⟩

theorem mem_ofVariant {typeName : String} {asked : List Asked} {a : Asked} : a ∈ ofVariant typeName asked ↔
    ∃ inner, on typeName inner ∈ asked ∧ a ∈ inner := by
  rw [ofVariant, List.mem_flatMap]
  constructor
  · rintro ⟨b, hb, ha⟩
    cases b with
    | on other inner =>
        rw [inVariant] at ha
        split at ha
        · rename_i heq
          exact ⟨_, heq ▸ hb, ha⟩
        · cases ha
    | _ => cases ha
  · rintro ⟨inner, hmem, ha⟩
    exact ⟨_, hmem, by rwa [inVariant, if_pos rfl]⟩

/-- That something is asked for of a field. -/
def Nests (asked : List Asked) (wireName : String) : Prop :=
  ∃ name typeName inner, nested name wireName typeName inner ∈ asked

theorem nests_append {wireName : String} {as bs : List Asked} :
    Nests (as ++ bs) wireName ↔ Nests as wireName ∨ Nests bs wireName := by
  constructor
  · rintro ⟨name, typeName, inner, hmem⟩
    exact (List.mem_append.1 hmem).imp (fun h => ⟨_, _, _, h⟩) fun h => ⟨_, _, _, h⟩
  · rintro (⟨name, typeName, inner, hmem⟩ | ⟨name, typeName, inner, hmem⟩)
    · exact ⟨_, _, _, List.mem_append_left _ hmem⟩
    · exact ⟨_, _, _, List.mem_append_right _ hmem⟩

theorem not_nests_of_not_mem {wireName : String} {asked : List Asked} (h : wireName ∉ wireNames asked) :
    ¬Nests asked wireName := fun ⟨_, _, _, hmem⟩ => h (mem_wireNames.2 ⟨_, hmem, rfl⟩)

theorem ofField_of_not_nests {wireName : String} {asked : List Asked} (h : ¬Nests asked wireName) :
    ofField wireName asked = [] := by
  refine List.eq_nil_iff_forall_not_mem.2 fun a ha => ?_
  obtain ⟨name, typeName, inner, hmem, -⟩ := mem_ofField.1 ha
  exact h ⟨_, _, _, hmem⟩

theorem ofVariant_of_not_mem {typeName : String} {asked : List Asked} (h : typeName ∉ conditions asked) :
    ofVariant typeName asked = [] := by
  refine List.eq_nil_iff_forall_not_mem.2 fun a ha => ?_
  obtain ⟨inner, hmem, -⟩ := mem_ofVariant.1 ha
  exact h (mem_conditions.2 ⟨_, hmem, rfl⟩)

end Asked

section Firsts

theorem eraseDups_concat (names : List String) (name : String) :
    (names ++ [name]).eraseDups = if name ∈ names then names.eraseDups else names.eraseDups ++ [name] := by
  rw [List.eraseDups_append, List.removeAll, List.filter_cons]
  by_cases h : name ∈ names
  · simp [h]
  · simp [h, List.eraseDups_cons]

theorem nodup_eraseDups (names : List String) : names.eraseDups.Nodup := by
  induction names using List.reverseRecOn with
  | nil => exact List.nodup_nil
  | append_singleton names name ih =>
      rw [eraseDups_concat]
      split
      · exact ih
      · rename_i hnew
        refine ih.append (List.nodup_singleton name) ?_
        intro other hother hmem
        rw [List.mem_singleton.1 hmem] at hother
        exact hnew (List.mem_eraseDups.1 hother)

/-- Whether names come once or more often behind others makes no difference. -/
theorem eraseDups_append_eraseDups (first second : List String) :
    (first ++ second.eraseDups).eraseDups = (first ++ second).eraseDups := by
  induction second using List.reverseRecOn with
  | nil => rfl
  | append_singleton second name ih =>
      rw [← List.append_assoc, eraseDups_concat (first ++ second), eraseDups_concat second]
      by_cases h : name ∈ second
      · rw [if_pos h, if_pos (List.mem_append_right _ h), ih]
      · rw [if_neg h, ← List.append_assoc, eraseDups_concat, ih]
        have hiff : name ∈ first ++ second.eraseDups ↔ name ∈ first ++ second := by simp
        rw [if_congr hiff rfl rfl]

end Firsts

namespace Selected

section Put

variable {α : Type}

/-- Puts items one by one. -/
def putAll (join : α → α → α) (done : List (String × α)) (items : List (String × α)) : List (String × α) :=
  items.foldl (fun done e => put e.1 e.2 (join e.2) done) done

theorem lookup_eq_none_iff {items : List (String × α)} {key : String} :
    items.lookup key = none ↔ key ∉ items.map (·.1) := by
  rw [List.lookup_eq_none_iff, List.mem_map]
  constructor
  · rintro h ⟨e, he, rfl⟩
    exact absurd (h e he) (by simp)
  · intro h e he
    rw [bne_iff_ne]
    rintro rfl
    exact h ⟨e, he, rfl⟩

theorem lookup_put (key : String) (new : α) (merge : α → α) (items : List (String × α)) (other : String) :
    (put key new merge items).lookup other =
      if other = key then some (((items.lookup key).map merge).getD new) else items.lookup other := by
  induction items with
  | nil => rw [put, Table.lookup_cons_eq, List.lookup_nil, List.lookup_nil, Option.map_none, Option.getD_none]
  | cons e rest ih =>
      obtain ⟨k, a⟩ := e
      rw [put]
      by_cases hk : k = key
      · subst hk
        rw [if_pos rfl, Table.lookup_cons_eq, Table.lookup_cons_eq, Table.lookup_cons_eq,
          if_pos rfl, Option.map_some, Option.getD_some]
        split <;> rfl
      · rw [if_neg hk, Table.lookup_cons_eq, ih, Table.lookup_cons_eq, Table.lookup_cons_eq,
          if_neg (Ne.symm hk)]
        by_cases hother : other = k
        · rw [if_pos hother, if_pos hother, if_neg (by rw [hother]; exact hk)]
        · rw [if_neg hother, if_neg hother]

theorem keys_put (key : String) (new : α) (merge : α → α) (items : List (String × α)) :
    (put key new merge items).map (·.1) =
      if key ∈ items.map (·.1) then items.map (·.1) else items.map (·.1) ++ [key] := by
  induction items with
  | nil => rfl
  | cons e rest ih =>
      obtain ⟨k, a⟩ := e
      rw [put]
      by_cases hk : k = key
      · simp [hk]
      · have hne : ¬key = k := fun h => hk h.symm
        simp only [hk, if_false, List.map_cons, ih, List.mem_cons, hne, false_or]
        split <;> rfl

/-- What stands under a key after later items were put. -/
def joined (join : α → α → α) : Option α → Option α → Option α
  | later, none => later
  | none, some earlier => some earlier
  | some later, some earlier => some (join later earlier)

theorem joined_eq_some {join : α → α → α} {later earlier : Option α} {a : α}
    (h : joined join later earlier = some a) :
    (later = none ∧ earlier = some a) ∨ (later = some a ∧ earlier = none) ∨
      ∃ l e, later = some l ∧ earlier = some e ∧ join l e = a := by
  cases later <;> cases earlier <;> cases h
  · exact .inl ⟨rfl, rfl⟩
  · exact .inr (.inl ⟨rfl, rfl⟩)
  · exact .inr (.inr ⟨_, _, rfl, rfl, rfl⟩)

theorem lookup_putAll (join : α → α → α) {items : List (String × α)} (hnodup : (items.map (·.1)).Nodup)
    (done : List (String × α)) (key : String) :
    (putAll join done items).lookup key = joined join (items.lookup key) (done.lookup key) := by
  induction items generalizing done with
  | nil =>
      rw [putAll, List.foldl_nil, List.lookup_nil]
      cases done.lookup key <;> rfl
  | cons e rest ih =>
      obtain ⟨k, a⟩ := e
      rw [List.map_cons, List.nodup_cons] at hnodup
      rw [putAll, List.foldl_cons]
      refine (ih hnodup.2 _).trans ?_
      rw [lookup_put, Table.lookup_cons_eq]
      by_cases hk : key = k
      · subst hk
        have hrest : rest.lookup key = none := lookup_eq_none_iff.2 hnodup.1
        rw [if_pos rfl, if_pos rfl, hrest]
        cases done.lookup key <;> rfl
      · rw [if_neg hk, if_neg hk]

theorem keys_putAll (join : α → α → α) {names : List String} {done : List (String × α)}
    (hdone : done.map (·.1) = names.eraseDups) (items : List (String × α)) :
    (putAll join done items).map (·.1) = (names ++ items.map (·.1)).eraseDups := by
  induction items generalizing done names with
  | nil => rw [putAll, List.foldl_nil, hdone, List.map_nil, List.append_nil]
  | cons e rest ih =>
      rw [putAll, List.foldl_cons]
      refine (@ih (names ++ [e.1]) _ ?_).trans ?_
      · rw [keys_put, hdone, eraseDups_concat, if_congr List.mem_eraseDups rfl rfl]
      · rw [List.append_assoc, List.singleton_append, List.map_cons]

end Put

theorem mergeFields_eq (done fields : List (String × SelectedField)) :
    mergeFields done fields = putAll join done fields := by
  induction fields generalizing done with
  | nil => rw [mergeFields, putAll, List.foldl_nil]
  | cons e rest ih => rw [mergeFields, ih, putAll, putAll, List.foldl_cons]

theorem mergeVariants_eq (done variants : List (String × Selected)) :
    mergeVariants done variants = putAll (fun later earlier => merge earlier later) done variants := by
  induction variants generalizing done with
  | nil => rw [mergeVariants, putAll, List.foldl_nil]
  | cons e rest ih => rw [mergeVariants, ih, putAll, putAll, List.foldl_cons]

theorem fieldEntries_merge (s t : Selected) :
    (s.merge t).fieldEntries = putAll join s.fieldEntries t.fieldEntries := by
  obtain ⟨typeName, fields, typename, variants⟩ := t
  rw [merge, mergeFields_eq]
  rfl

theorem variantEntries_merge (s t : Selected) : (s.merge t).variantEntries =
    putAll (fun later earlier => merge earlier later) s.variantEntries t.variantEntries := by
  obtain ⟨typeName, fields, typename, variants⟩ := t
  rw [merge, mergeVariants_eq]
  rfl

theorem typenameSelected_merge (s t : Selected) :
    (s.merge t).typenameSelected = (s.typenameSelected || t.typenameSelected) := by
  obtain ⟨typeName, fields, typename, variants⟩ := t
  rw [merge]
  rfl

end Selected

theorem Selected.selection_join (later earlier : SelectedField) : (join later earlier).selection =
    joined (fun later earlier => merge earlier later) later.selection earlier.selection := by
  obtain ⟨name, wireName, _ | s⟩ := later <;> obtain ⟨name', wireName', _ | s'⟩ :=
    earlier <;> rw [join] <;> rfl

theorem Selected.name_join (later earlier : SelectedField) :
    (join later earlier).name = earlier.name ∧ (join later earlier).wireName = earlier.wireName := by
  obtain ⟨name, wireName, _ | s⟩ := later <;> rw [join] <;> exact ⟨rfl, rfl⟩

theorem Selected.typeName_merge (s t : Selected) : (s.merge t).typeName = s.typeName := by
  obtain ⟨typeName, fields, typename, variants⟩ := t
  rw [merge]
  rfl

/-- What a selected field is that comes from what is asked for. -/
structure SelectedField.Of (asked : List Asked) (key : String) (f : SelectedField) : Prop where
  wireName : f.wireName = key
  name : ∃ a ∈ asked, a.wireName? = some key ∧ a.name? = some f.name
  nests : f.selection.isSome ↔ Asked.Nests asked key
  typeName : ∀ s, f.selection = some s → ∃ name inner, Asked.nested name key s.typeName inner ∈ asked

/-- That a selection gathers what is asked for. -/
inductive Gathers : Selected → List Asked → Prop
  | mk {typeName fields typename variants asked}
      (htypename : typename = true ↔ Asked.typename ∈ asked)
      (hwireNames : fields.map (·.1) = Asked.wireNames asked)
      (hconditions : variants.map (·.1) = Asked.conditions asked)
      (hfield : ∀ wireName f, fields.lookup wireName = some f → SelectedField.Of asked wireName f)
      (hvariant : ∀ typeName v, variants.lookup typeName = some v → Selected.typeName v = typeName)
      (hnested : ∀ wireName f s, fields.lookup wireName = some f → SelectedField.selection f = some s →
        Gathers s (Asked.ofField wireName asked))
      (hinner : ∀ typeName v, variants.lookup typeName = some v →
        Gathers v (Asked.ofVariant typeName asked)) :
      Gathers (.mk typeName fields typename variants) asked

namespace SelectedField.Of

variable {as bs : List Asked} {key : String} {f later earlier : SelectedField}

theorem not_nests (h : Of as key f) (hleaf : f.selection = none) : ¬Asked.Nests as key := by
  rw [← h.nests, hleaf]
  exact Bool.false_ne_true

theorem left (h : Of as key f) (hnew : key ∉ Asked.wireNames bs) : Of (as ++ bs) key f where
  wireName := h.wireName
  name := by
    obtain ⟨a, ha, hname⟩ := h.name
    exact ⟨a, List.mem_append_left _ ha, hname⟩
  nests := by rw [h.nests, Asked.nests_append, or_iff_left (Asked.not_nests_of_not_mem hnew)]
  typeName s hs := by
    obtain ⟨name, inner, hmem⟩ := h.typeName s hs
    exact ⟨name, inner, List.mem_append_left _ hmem⟩

theorem right (h : Of bs key f) (hnew : key ∉ Asked.wireNames as) : Of (as ++ bs) key f where
  wireName := h.wireName
  name := by
    obtain ⟨a, ha, hname⟩ := h.name
    exact ⟨a, List.mem_append_right _ ha, hname⟩
  nests := by rw [h.nests, Asked.nests_append, or_iff_right (Asked.not_nests_of_not_mem hnew)]
  typeName s hs := by
    obtain ⟨name, inner, hmem⟩ := h.typeName s hs
    exact ⟨name, inner, List.mem_append_right _ hmem⟩

theorem join (hlater : Of bs key later) (hearlier : Of as key earlier) :
    Of (as ++ bs) key (Selected.join later earlier) where
  wireName := (Selected.name_join later earlier).2.trans hearlier.wireName
  name := by
    obtain ⟨a, ha, hname⟩ := hearlier.name
    exact ⟨a, List.mem_append_left _ ha, by rwa [(Selected.name_join later earlier).1]⟩
  nests := by
    rw [Asked.nests_append, ← hearlier.nests, ← hlater.nests, Selected.selection_join]
    cases later.selection <;> cases earlier.selection <;> simp [Selected.joined]
  typeName s hs := by
    rw [Selected.selection_join] at hs
    rcases Selected.joined_eq_some hs with ⟨-, hearly⟩ | ⟨hlate, -⟩ | ⟨after, before, -, hearly, rfl⟩
    · obtain ⟨name, inner, hmem⟩ := hearlier.typeName s hearly
      exact ⟨name, inner, List.mem_append_left _ hmem⟩
    · obtain ⟨name, inner, hmem⟩ := hlater.typeName s hlate
      exact ⟨name, inner, List.mem_append_right _ hmem⟩
    · obtain ⟨name, inner, hmem⟩ := hearlier.typeName before hearly
      rw [Selected.typeName_merge]
      exact ⟨name, inner, List.mem_append_left _ hmem⟩

end SelectedField.Of

namespace Gathers

variable {s t : Selected} {as bs : List Asked}

theorem empty (typeName : String) : Gathers (.empty typeName) [] :=
  .mk (by simp) rfl rfl nofun nofun nofun nofun

/-- What it is for a selection to gather what is asked for, told by its parts. -/
theorem parts_iff : Gathers s as ↔ (s.typenameSelected = true ↔ Asked.typename ∈ as) ∧
    (s.fieldEntries.map (·.1) = Asked.wireNames as ∧ s.variantEntries.map (·.1) = Asked.conditions as) ∧
    (∀ wireName f, s.fieldEntries.lookup wireName = some f → SelectedField.Of as wireName f) ∧
    (∀ typeName v, s.variantEntries.lookup typeName = some v → v.typeName = typeName) ∧
    (∀ wireName f t, s.fieldEntries.lookup wireName = some f → f.selection = some t →
      Gathers t (Asked.ofField wireName as)) ∧
    ∀ typeName v, s.variantEntries.lookup typeName = some v → Gathers v (Asked.ofVariant typeName as) := by
  constructor
  · rintro ⟨htypename, hwireNames, hconditions, hfield, hvariant, hnested, hinner⟩
    exact ⟨htypename, ⟨hwireNames, hconditions⟩, hfield, hvariant, hnested, hinner⟩
  · rintro ⟨htypename, ⟨hwireNames, hconditions⟩, hfield, hvariant, hnested, hinner⟩
    obtain ⟨typeName, fields, typename, variants⟩ := s
    exact .mk htypename hwireNames hconditions hfield hvariant hnested hinner

theorem typename_iff (h : Gathers s as) : s.typenameSelected = true ↔ Asked.typename ∈ as :=
  (parts_iff.1 h).1

theorem keys (h : Gathers s as) :
    s.fieldEntries.map (·.1) = Asked.wireNames as ∧ s.variantEntries.map (·.1) = Asked.conditions as :=
  (parts_iff.1 h).2.1

theorem nodup (h : Gathers s as) : (s.fieldEntries.map (·.1)).Nodup ∧ (s.variantEntries.map (·.1)).Nodup := by
  rw [h.keys.1, h.keys.2]
  exact ⟨nodup_eraseDups _, nodup_eraseDups _⟩

theorem keys_merge (hs : Gathers s as) (ht : Gathers t bs) :
    (s.merge t).fieldEntries.map (·.1) = Asked.wireNames (as ++ bs) ∧
      (s.merge t).variantEntries.map (·.1) = Asked.conditions (as ++ bs) := by
  rw [Selected.fieldEntries_merge, Selected.variantEntries_merge, Selected.keys_putAll _ hs.keys.1,
    Selected.keys_putAll _ hs.keys.2, ht.keys.1, ht.keys.2, Asked.wireNames, Asked.conditions,
    eraseDups_append_eraseDups, eraseDups_append_eraseDups, ← List.filterMap_append, ← List.filterMap_append]
  exact ⟨rfl, rfl⟩

/-- A field of a merged selection is one of the first, one of the second, or one of each joined. -/
theorem field_of_merge (hs : Gathers s as) (ht : Gathers t bs) {key : String} {f : SelectedField}
    (hf : (s.merge t).fieldEntries.lookup key = some f) :
    (s.fieldEntries.lookup key = some f ∧ key ∉ Asked.wireNames bs) ∨
      (t.fieldEntries.lookup key = some f ∧ key ∉ Asked.wireNames as) ∨
      ∃ later earlier, t.fieldEntries.lookup key = some later ∧ s.fieldEntries.lookup key = some earlier ∧
        Selected.join later earlier = f := by
  rw [Selected.fieldEntries_merge, Selected.lookup_putAll _ ht.nodup.1] at hf
  rcases Selected.joined_eq_some hf with ⟨hlater, hearlier⟩ | ⟨hlater, hearlier⟩ | hboth
  · exact .inl ⟨hearlier, ht.keys.1 ▸ Selected.lookup_eq_none_iff.1 hlater⟩
  · exact .inr (.inl ⟨hlater, hs.keys.1 ▸ Selected.lookup_eq_none_iff.1 hearlier⟩)
  · exact .inr (.inr hboth)

/-- The same for what is selected from an object type. -/
theorem variant_of_merge (hs : Gathers s as) (ht : Gathers t bs) {key : String} {v : Selected}
    (hv : (s.merge t).variantEntries.lookup key = some v) :
    (s.variantEntries.lookup key = some v ∧ key ∉ Asked.conditions bs) ∨
      (t.variantEntries.lookup key = some v ∧ key ∉ Asked.conditions as) ∨
      ∃ later earlier, t.variantEntries.lookup key = some later ∧ s.variantEntries.lookup key = some earlier ∧
        Selected.merge earlier later = v := by
  rw [Selected.variantEntries_merge, Selected.lookup_putAll _ ht.nodup.2] at hv
  rcases Selected.joined_eq_some hv with ⟨hlater, hearlier⟩ | ⟨hlater, hearlier⟩ | hboth
  · exact .inl ⟨hearlier, ht.keys.2 ▸ Selected.lookup_eq_none_iff.1 hlater⟩
  · exact .inr (.inl ⟨hlater, hs.keys.2 ▸ Selected.lookup_eq_none_iff.1 hearlier⟩)
  · exact .inr (.inr hboth)

/-- **Merging gathers both.** -/
theorem merge (hs : Gathers s as) (ht : Gathers t bs) : Gathers (s.merge t) (as ++ bs) := by
  induction ht generalizing s as with
  | @mk typeName fields typename variants bs htypename hwireNames hconditions hfield hvariant hnested hinner
      ihnested ihinner =>
      have ht : Gathers (.mk typeName fields typename variants) bs :=
        .mk htypename hwireNames hconditions hfield hvariant hnested hinner
      obtain ⟨htypename', -, hfield', hvariant', hnested', hinner'⟩ := parts_iff.1 hs
      refine parts_iff.2 ⟨?_, hs.keys_merge ht, ?_, ?_, ?_, ?_⟩
      · rw [Selected.typenameSelected_merge, Bool.or_eq_true, List.mem_append]
        exact or_congr htypename' htypename
      · intro key f hf
        rcases hs.field_of_merge ht hf with ⟨hearlier, hnew⟩ | ⟨hlater, hnew⟩ | ⟨l, e, hlater, hearlier, rfl⟩
        · exact (hfield' key f hearlier).left hnew
        · exact (hfield key f hlater).right hnew
        · exact (hfield key l hlater).join (hfield' key e hearlier)
      · intro key v hv
        rcases hs.variant_of_merge ht hv with ⟨hearlier, -⟩ | ⟨hlater, -⟩ | ⟨l, e, -, hearlier, rfl⟩
        · exact hvariant' key v hearlier
        · exact hvariant key v hlater
        · exact (Selected.typeName_merge _ _).trans (hvariant' key e hearlier)
      · intro key f x hf hx
        rw [Asked.ofField_append]
        rcases hs.field_of_merge ht hf with ⟨hearlier, hnew⟩ | ⟨hlater, hnew⟩ | ⟨l, e, hlater, hearlier, rfl⟩
        · rw [Asked.ofField_of_not_nests (Asked.not_nests_of_not_mem hnew), List.append_nil]
          exact hnested' key f x hearlier hx
        · rw [Asked.ofField_of_not_nests (Asked.not_nests_of_not_mem hnew), List.nil_append]
          exact hnested key f x hlater hx
        · -- the field is asked for twice, and what is selected from it is merged
          rw [Selected.selection_join] at hx
          rcases Selected.joined_eq_some hx with ⟨hlate, hearly⟩ | ⟨hlate, hearly⟩ |
            ⟨after, before, hlate, hearly, rfl⟩
          · rw [Asked.ofField_of_not_nests ((hfield key l hlater).not_nests hlate), List.append_nil]
            exact hnested' key e x hearlier hearly
          · rw [Asked.ofField_of_not_nests ((hfield' key e hearlier).not_nests hearly), List.nil_append]
            exact hnested key l x hlater hlate
          · exact ihnested key l after hlater hlate (hnested' key e before hearlier hearly)
      · intro key v hv
        rw [Asked.ofVariant_append]
        rcases hs.variant_of_merge ht hv with ⟨hearlier, hnew⟩ | ⟨hlater, hnew⟩ |
          ⟨l, e, hlater, hearlier, rfl⟩
        · rw [Asked.ofVariant_of_not_mem hnew, List.append_nil]
          exact hinner' key v hearlier
        · rw [Asked.ofVariant_of_not_mem hnew, List.nil_append]
          exact hinner key v hlater
        · exact ihinner key l hlater (hinner' key e hearlier)

theorem selectTypename (hs : Gathers s as) : Gathers s.selectTypename (as ++ [.typename]) := by
  have hone : Gathers (.mk "" [] true []) [.typename] := .mk (by simp) rfl rfl nofun nofun nofun nofun
  have hmerge : s.selectTypename = s.merge (.mk "" [] true []) := by
    rw [Selected.merge, Selected.mergeFields, Selected.mergeVariants, Bool.or_true]
    rfl
  exact hmerge ▸ hs.merge hone

theorem withField {wireName : String} {f : SelectedField} (hs : Gathers s as)
    (hf : Gathers (.mk "" [(wireName, f)] false []) bs) : Gathers (s.withField wireName f) (as ++ bs) := by
  have hmerge : s.withField wireName f = s.merge (.mk "" [(wireName, f)] false []) := by
    rw [Selected.merge, Selected.mergeFields, Selected.mergeFields, Selected.mergeVariants, Bool.or_false]
    rfl
  exact hmerge ▸ hs.merge hf

theorem lookup_singleton {α : Type} {key other : String} {a b : α} (h : [(key, a)].lookup other = some b) :
    other = key ∧ a = b := by
  rw [Table.lookup_cons_eq] at h
  split at h
  · exact ⟨‹_›, Option.some.inj h⟩
  · cases h

theorem withLeaf (hs : Gathers s as) (name wireName : String) :
    Gathers (s.withField wireName (.mk name wireName none)) (as ++ [.leaf name wireName]) := by
  refine hs.withField (.mk (by simp) rfl rfl ?_ nofun ?_ nofun)
  · intro key f hf
    obtain ⟨rfl, rfl⟩ := lookup_singleton hf
    exact ⟨rfl, ⟨_, List.mem_singleton_self _, rfl, rfl⟩,
      ⟨nofun, fun ⟨_, _, _, h⟩ => by cases List.mem_singleton.1 h⟩, nofun⟩
  · intro key f x hf hx
    obtain ⟨rfl, rfl⟩ := lookup_singleton hf
    cases hx

theorem withNested (hs : Gathers s as) (ht : Gathers t bs) (name wireName : String) :
    Gathers (s.withField wireName (.mk name wireName (some t)))
      (as ++ [.nested name wireName t.typeName bs]) := by
  refine hs.withField (.mk (by simp) rfl rfl ?_ nofun ?_ nofun)
  · intro key f hf
    obtain ⟨rfl, rfl⟩ := lookup_singleton hf
    refine ⟨rfl, ⟨_, List.mem_singleton_self _, rfl, rfl⟩,
      ⟨fun _ => ⟨_, _, _, List.mem_singleton_self _⟩, fun _ => rfl⟩, ?_⟩
    rintro _ ⟨⟩
    exact ⟨_, _, List.mem_singleton_self _⟩
  · intro key f x hf hx
    obtain ⟨rfl, rfl⟩ := lookup_singleton hf
    cases hx
    rw [Asked.ofField, List.flatMap_singleton, Asked.inField, if_pos rfl]
    exact ht

theorem withVariant (hs : Gathers s as) (ht : Gathers t bs) :
    Gathers (s.withVariant t.typeName t) (as ++ [.on t.typeName bs]) := by
  have hmerge : s.withVariant t.typeName t = s.merge (.mk "" [] false [(t.typeName, t)]) := by
    rw [Selected.merge, Selected.mergeFields, Selected.mergeVariants, Selected.mergeVariants, Bool.or_false]
    rfl
  rw [hmerge]
  refine hs.merge (.mk (by simp) rfl rfl (by simp) ?_ (by simp) ?_)
  · intro key v hv
    obtain ⟨rfl, rfl⟩ := lookup_singleton hv
    rfl
  · intro key v hv
    obtain ⟨rfl, rfl⟩ := lookup_singleton hv
    rw [Asked.ofVariant, List.flatMap_singleton, Asked.inVariant, if_pos rfl]
    exact ht

end Gathers

end GraphClient
