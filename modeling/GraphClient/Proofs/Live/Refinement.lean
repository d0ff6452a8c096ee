import GraphClient.Proofs.Live.Plans
import GraphClient.Proofs.Live.Snapshot
import Mathlib.Data.List.Find

/-! Writing is merging. Whatever a goal writes in place, the trees of its objects become what merging its
data into their old trees gives, and it fails where merging does, for the same reason. Since parts of a
goal do not meet, a tree that was written stays while the next ones are. -/

namespace GraphClient.Live

variable {plans : Plans}

namespace Heap

variable {h h' : Heap} {o x : ObjectId}

/-! ### Fields -/

/-- The trees in fields, when one of them has a slot written. -/
theorem fieldTrees_of_write {name : String} {s : Slot} (ht : h.Tidy) (he : h.Evolves h')
    (hs : h.Spares h' (h.Within o [name]) fun _ => False)
    (hfields : (h'.object o).fields = ((h.write o name s).object o).fields) :
    h'.fieldTrees o = Snapshot.put (h.fieldTrees o) name (h'.slotTree h'.snapshot s) := by
  have hother : ∀ e ∈ (h.object o).fields.entries, e.1 ≠ name →
      h'.slotTree h'.snapshot e.2 = h.slotTree h.snapshot e.2 := by
    intro e hentry hne
    have hslot := ht.slot_of_mem hentry
    have hnot : e.1 ∉ [name] := fun hmem => hne (List.mem_singleton.1 hmem)
    apply slotTree_congr
    · intro l hl
      exact hs.list_of_slot ht (hslot.trans hl) (ht.not_within hnot) id
    · intro c hc
      rw [← hslot] at hc
      exact (hs.same_field ht he hnot hc).snapshot ht (ht.hasObject_of_child ⟨e.1, hc⟩) he.size_le
  have hinsert := Table.map_insert_congr ht.names s hother
  rw [fieldTrees, hfields, object_write]
  by_cases hsame : h.slot o name = s
  · rw [if_neg fun hand => hand.2 hsame]
    cases hget : (h.object o).get? name with
    | some t =>
        have hst : t = s := (slot_of_get? hget).symm.trans hsame
        subst hst
        rw [Table.insert_eq_self hget] at hinsert
        rw [hinsert, Snapshot.put_of_contains]
        · rfl
        · rw [Table.contains, get?_fieldTrees, hget]
          rfl
    | none =>
        rw [slot, hget] at hsame
        subst hsame
        rw [Option.getD_none, slotTree, Snapshot.put_null, Table.contains, get?_fieldTrees,
          hget, if_neg (by simp)]
        apply Table.map_congr
        intro e hentry
        apply hother e hentry
        intro heq
        have hsome := Table.get?_of_mem ht.names hentry
        rw [heq] at hsome
        cases hsome.symm.trans hget
  · rw [if_pos ⟨rfl, hsame⟩, hinsert]
    by_cases hnull : s = .null
    · subst hnull
      rw [Snapshot.put_of_contains]
      · rfl
      · rw [Table.contains, get?_fieldTrees, Option.isSome_map]
        cases hget : (h.object o).get? name with
        | some t => rfl
        | none =>
            rw [slot, hget] at hsame
            exact absurd rfl hsame
    · rw [Snapshot.put_of_ne_null (slotTree_ne_null hnull)]
      rfl

namespace Tidy

/-- The text that tells an object apart is that of its tree. -/
theorem id?_snapshot (ht : h.Tidy) (ho : h.HasObject o) : (h.snapshot o).id? = (h.object o).id? := by
  rw [ht.snapshot_eq ho, Snapshot.id?, Instance.id?, get?_fieldTrees]
  cases (h.object o).get? Instance.idField with
  | none => rfl
  | some s =>
      cases s with
      | scalar v => cases v <;> rfl
      | object x =>
          obtain ⟨fields, heq⟩ := h.exists_snapshot_eq x
          rw [Option.map_some, slotTree, heq]
      | _ => rfl

theorem suits_snapshot (ht : h.Tidy) (ho : h.HasObject o) (concrete : String) (data : Json) :
    (h.snapshot o).suits concrete data =
      ((h.object o).typeName = concrete && sameIdentity (h.object o) data) := by
  have htype : decide ((h.snapshot o).typeName? = some concrete) =
      decide ((h.object o).typeName = concrete) := by
    rw [ht.snapshot_eq ho, Snapshot.typeName?]
    simp
  rw [Snapshot.suits, ht.id?_snapshot ho, htype]
  unfold sameIdentity
  cases wireId? data <;> cases (h.object o).id? <;> rfl

/-- What a field keeps for data. -/
theorem filter_fieldTrees (ht : h.Tidy) (o : ObjectId) (name concrete : String) (data : Json) :
    ((h.fieldTrees o).get? name).filter (·.suits concrete data) =
      (h.kept? o name concrete data).map h.snapshot := by
  rw [get?_fieldTrees, kept?, Instance.object?]
  cases hget : (h.object o).get? name with
  | none => rfl
  | some s =>
      cases s with
      | object x =>
          have hx := (ht.object (slot_of_get? hget)).2
          rw [Option.map_some, slotTree, Option.filter_some, Option.filter_some, ht.suits_snapshot hx]
          split <;> rfl
      | _ => rfl

/-- The trees of the list in a field. -/
theorem itemsAt_fieldTrees (o : ObjectId) (name : String) :
    Snapshot.itemsAt (h.fieldTrees o) name =
      (((h.object o).list? name).elim [] fun l => (h.list l).items).map h.snapshot := by
  rw [Snapshot.itemsAt, get?_fieldTrees, Instance.list?]
  cases hget : (h.object o).get? name with
  | none => rfl
  | some s =>
      cases s with
      | object x =>
          obtain ⟨fields, heq⟩ := h.exists_snapshot_eq x
          rw [Option.map_some, slotTree, heq]
          rfl
      | _ => rfl

end Tidy

theorem fields_withObject (h : Heap) (o : ObjectId) (field typeName : String) (ho : h.HasObject o) :
    ((h.withObject o field typeName).object o).fields =
      ((h.write o field (.object h.nextObject)).object o).fields := by
  rw [withObject, object_write, object_write, slot_newObject, object_newObject_of_hasObject typeName ho]

theorem fields_withList (h : Heap) (o : ObjectId) (field elementType : String) (keyed : Bool) :
    ((h.withList o field elementType keyed).object o).fields =
      ((h.write o field (.list h.nextList)).object o).fields := by
  rw [withList, object_write, object_write, slot_newList, object_newList]

theorem snapshot_withObject (ho : h.HasObject o) {field typeName : String}
    (ht : (h.withObject o field typeName).Tidy) :
    (h.withObject o field typeName).snapshot h.nextObject = .blank typeName := by
  have hne : h.nextObject ≠ o := by
    rintro rfl
    exact h.not_hasObject_nextObject ho
  have hobject : (h.withObject o field typeName).object h.nextObject = ⟨typeName, .empty, none⟩ := by
    rw [withObject, object_write_of_ne hne, object_newObject, if_pos rfl]
  rw [ht.snapshot_eq (made_withObject ho field typeName), fieldTrees, hobject]
  rfl

/-- New contents of a list change no tree of an element. -/
theorem snapshot_setItems {l : ListId} {items : List ObjectId} (ht : (h.setItems l items).2.Tidy)
    (hsize : (h.setItems l items).2.objects.size = h.objects.size) (hx : x ∈ items) :
    (h.setItems l items).2.snapshot x = h.snapshot x := by
  have hitem : x ∈ ((h.setItems l items).2.list l).items := by rwa [list_setItems, if_pos rfl]
  have hsame : (h.setItems l items).2.Same h x := by
    refine ⟨fun _ => ?_, fun _ => ?_, fun {z name k} hbelow hslot => ?_⟩
    · rw [typeName_setItems]
    · rw [fields_setItems]
    · rw [list_setItems, if_neg]
      rintro rfl
      exact ht.slot_ne_list_of_below hitem hbelow name hslot
  exact (hsame.snapshot ht (ht.item hitem) (Nat.le_of_eq hsize)).symm

end Heap

/-! ### Entries -/

/-- That the elements of a list which are still to be had are as they were when its first entry came. -/
structure Recalls (first h : Heap) (list : ObjectList) (position : Nat) (byId : List (String × ObjectId))
    (earlier : List String) : Prop where
  evolves : first.Evolves h
  tidy : first.Tidy
  items : ∀ x ∈ list.items, first.HasObject x
  offers : byId = (elementIds first list).filter fun e => e.1 ∉ earlier
  tree : ∀ x, Offered h list position byId x → h.snapshot x = first.snapshot x
  idless : list.keyed = true → ∀ i x, position ≤ i → list.items[i]? = some x → (first.object x).id? = none →
    (h.object x).id? = none

/-- The first element with an id. -/
theorem lookup_elementIds {h : Heap} {list : ObjectList} (hkeyed : list.keyed = true) (id : String) :
    (elementIds h list).lookup id = list.items.find? fun x => (h.object x).id? = some id := by
  rw [elementIds, if_pos hkeyed]
  induction list.items with
  | nil => rfl
  | cons x rest ih =>
      rw [List.filterMap_cons, List.find?_cons]
      cases hid : (h.object x).id? with
      | none => simpa using ih
      | some own =>
          rw [Option.map_some, Table.lookup_cons_eq, ih]
          by_cases heq : id = own
          · simp [heq]
          · simp [heq, Ne.symm heq]

theorem lookup_filter_notMem {β : Type} (earlier : List String) (entries : List (String × β)) (id : String) :
    (entries.filter fun e => e.1 ∉ earlier).lookup id = if id ∈ earlier then none else entries.lookup id := by
  induction entries with
  | nil => simp
  | cons e rest ih =>
      obtain ⟨other, value⟩ := e
      rw [List.filter_cons, Table.lookup_cons_eq]
      by_cases hother : other ∈ earlier
      · rw [if_neg (by simpa using hother), ih]
        by_cases heq : id = other
        · rw [heq, if_pos hother, if_pos hother]
        · rw [if_neg heq]
      · rw [if_pos (by simpa using hother), Table.lookup_cons_eq, ih]
        by_cases heq : id = other
        · rw [if_pos heq, if_pos heq, heq, if_neg hother]
        · rw [if_neg heq, if_neg heq]

/-- An element at a later position is not the one for an entry if it has no id. -/
theorem Listed.ne_pick_of_later {h : Heap} {l : ListId} {list : ObjectList} {position : Nat}
    {byId : List (String × ObjectId)} {concrete : String} {data : Json}
    (hl : Listed h l list byId) (ht : h.Tidy)
    {i : Nat} {y : ObjectId} (hi : position < i) (hat : list.items[i]? = some y)
    (hnone : list.keyed = true → (h.object y).id? = none) :
    y ≠ (pick h list byId position concrete data).1 := by
  rintro rfl
  obtain ⟨hkeyed, id, -, hmem⟩ := hl.mem_byId_of_later ht hi hat
  have hid := (hl.ids _ hmem).2.2
  rw [hnone hkeyed] at hid
  cases hid

namespace Recalls

variable {first h h₁ : Heap} {list : ObjectList} {position : Nat} {byId : List (String × ObjectId)}
  {earlier : List String} {concrete : String} {data : Json} {l : ListId}

theorem of_list (ht : h.Tidy) (l : ListId) :
    Recalls h h (h.list l) 0 (elementIds h (h.list l)) [] :=
  ⟨.refl h, ht, fun _ hx => ht.item hx, by simp, fun _ _ => rfl, fun _ _ _ _ _ hnone => hnone⟩

theorem typeName (hr : Recalls first h list position byId earlier) {x : ObjectId} (hx : x ∈ list.items) :
    (first.snapshot x).typeName? = some (h.object x).typeName := by
  rw [hr.tidy.snapshot_eq (hr.items x hx), Snapshot.typeName?, hr.evolves.typeName (hr.items x hx)]

/-- Whether an element at the position has an id is what it was. -/
theorem isNone_id? (hr : Recalls first h list position byId earlier) (ht : h.Tidy)
    (hkeyed : list.keyed = true) {x : ObjectId} (hitem : list.items[position]? = some x) :
    (first.object x).id?.isNone = (h.object x).id?.isNone := by
  have hold := hr.items x (List.mem_of_getElem? hitem)
  cases hfirst : (first.object x).id? with
  | none => rw [hr.idless hkeyed position x (Nat.le_refl _) hitem hfirst]
  | some own =>
      cases hnow : (h.object x).id? with
      | some own => rfl
      | none =>
          have htree := hr.tree x (.inr ⟨position, Nat.le_refl _, hitem, fun _ => hnow⟩)
          have heq := congrArg Snapshot.id? htree
          rw [hr.tidy.id?_snapshot hold, ht.id?_snapshot (hr.evolves.objects hold), hfirst, hnow] at heq
          cases heq

/-- An entry is about the tree of the element that it is about. -/
theorem matchingTree_eq (hr : Recalls first h list position byId earlier) (ht : h.Tidy) (concrete : String)
    (data : Json) :
    matchingTree (list.items.map first.snapshot) list.keyed earlier position concrete data =
      (matchElement h list byId position concrete data).map h.snapshot := by
  -- it is enough that the elements are the same before their types are compared
  suffices hcandidate : ∃ candidate : Option ObjectId,
      (∀ x, candidate = some x → x ∈ list.items ∧ h.snapshot x = first.snapshot x) ∧
      matchElement h list byId position concrete data =
        candidate.filter (fun x => (h.object x).typeName = concrete) ∧
      matchingTree (list.items.map first.snapshot) list.keyed earlier position concrete data =
        (candidate.map first.snapshot).filter fun tree => tree.typeName? = some concrete by
    obtain ⟨candidate, hsame, helement, htree⟩ := hcandidate
    rw [helement, htree]
    cases candidate with
    | none => rfl
    | some x =>
        obtain ⟨hx, heq⟩ := hsame x rfl
        rw [Option.map_some, Option.filter_some, Option.filter_some, hr.typeName hx]
        by_cases htype : (h.object x).typeName = concrete
        · simp [htype, heq]
        · simp [htype]
  have hat : ∀ x, list.items[position]? = some x → (list.keyed = true → (h.object x).id? = none) →
      x ∈ list.items ∧ h.snapshot x = first.snapshot x := fun x hx hnone =>
    ⟨List.mem_of_getElem? hx, hr.tree x (.inr ⟨position, Nat.le_refl _, hx, hnone⟩)⟩
  by_cases hkeyed : list.keyed = true
  · cases hwire : wireId? data with
    | some id =>
        refine ⟨byId.lookup id, fun x hx => ?_, by rw [matchElement, if_pos hkeyed, hwire], ?_⟩
        · have hmem := mem_of_lookup hx
          refine ⟨?_, hr.tree x (.inl ⟨id, hmem⟩)⟩
          rw [hr.offers] at hmem
          exact (mem_of_elementIds (List.mem_filter.1 hmem).1).2.1
        · rw [matchingTree, if_pos hkeyed, hwire, hr.offers, lookup_filter_notMem, lookup_elementIds hkeyed]
          by_cases hearlier : id ∈ earlier
          · simp [hearlier]
          · have hfind : (list.items.find? fun x => (first.snapshot x).id? = some id) =
                list.items.find? fun x => (first.object x).id? = some id :=
              List.find?_congr fun x hx => by rw [hr.tidy.id?_snapshot (hr.items x hx)]
            simp only [hearlier, if_false, List.find?_map, Function.comp_def, hfind]
    | none =>
        refine ⟨list.items[position]?.filter fun x => (h.object x).id?.isNone, fun x hx => ?_,
          by rw [matchElement, if_pos hkeyed, hwire], ?_⟩
        · obtain ⟨hx, hnone⟩ := Option.filter_eq_some_iff.1 hx
          exact hat x hx fun _ => Option.isNone_iff_eq_none.1 hnone
        · rw [matchingTree, if_pos hkeyed, hwire, List.getElem?_map]
          cases hx : list.items[position]? with
          | none => rfl
          | some x =>
              have hid : (first.snapshot x).id?.isNone = (h.object x).id?.isNone := by
                rw [hr.tidy.id?_snapshot (hr.items x (List.mem_of_getElem? hx)), hr.isNone_id? ht hkeyed hx]
              rw [Option.map_some, Option.filter_some, Option.filter_some, hid]
              cases (h.object x).id?.isNone <;> rfl
  · refine ⟨list.items[position]?, fun x hx => hat x hx fun h => absurd h hkeyed,
      by rw [matchElement, if_neg hkeyed], ?_⟩
    rw [matchingTree, if_neg hkeyed, List.getElem?_map]

/-- The tree that an entry is merged into. -/
theorem snapshot_pick (hr : Recalls first h list position byId earlier) (ht : h.Tidy) (concrete : String)
    (data : Json) :
    (matchingTree (list.items.map first.snapshot) list.keyed earlier position concrete data).getD
        (.blank concrete) =
      (pick h list byId position concrete data).2.snapshot (pick h list byId position concrete data).1 := by
  rw [hr.matchingTree_eq ht]
  cases hmatch : matchElement h list byId position concrete data with
  | some x =>
      rw [pick_of_match hmatch]
      rfl
  | none =>
      rw [pick_of_no_match hmatch]
      exact (Heap.snapshot_newObject ht concrete).symm

/-- When an entry is written, the elements that are still to be had stay. -/
theorem next (hd : plans.Distinct) (hr : Recalls first h list position byId earlier) (hs : h.Sound plans)
    (hl : Listed h l list byId) {changes : List String} {q : List Notification}
    (hentry : Writes plans (pick h list byId position concrete data).2
      (.object (pick h list byId position concrete data).1 data (.ok changes)) h₁ q) :
    Recalls first h₁ list (position + 1) (afterEntry data byId) ((wireId? data).toList ++ earlier) := by
  have he := (evolves_pick h list byId position concrete data).trans hentry.evolves
  have hspares := Heap.Spares.entry hentry.spares
  refine ⟨hr.evolves.trans he, hr.tidy, hr.items, ?_, fun y hy => ?_, fun hkeyed i y hi hat hnone => ?_⟩
  · rw [afterEntry, hr.offers]
    cases wireId? data with
    | none => rfl
    | some id =>
        dsimp only
        rw [List.filter_filter, Option.toList_some, List.singleton_append]
        apply List.filter_congr
        intro e _
        simp [List.mem_cons]
  · obtain ⟨hoffered, hne⟩ := hl.offered_next hd hs hentry hy
    have hitem : y ∈ (h.list l).items := by
      rw [hl.same]
      exact hl.mem_items_of_offered hoffered
    have hsame := hspares.same_item hs.tidy he hl.pick_mem_items hitem hne
    rw [hsame.snapshot hs.tidy (hs.tidy.item hitem) he.size_le, hr.tree y hoffered]
  · have hblank := hr.idless hkeyed i y (Nat.le_of_succ_le hi) hat hnone
    have hitem := List.mem_of_getElem? hat
    rw [hl.id_entry hs.tidy hspares hitem (hl.ne_pick_of_later hs.tidy hi hat fun _ => hblank), hblank]

end Recalls

/-! ### Writing -/

/-- That a result is that of merging. -/
def Goal.Merges (plans : Plans) (h h' : Heap) : Goal → Prop
  | .object o data result => merge plans data (h.snapshot o) = result.map fun _ => h'.snapshot o
  | .fields o typeName plan data result =>
      mergeFields plans.graph typeName data (fun d _ => merge plans d) plan (h.fieldTrees o) =
        result.map fun _ => h'.fieldTrees o
  | .field o typeName plan data result =>
      mergeField plans.graph typeName plan data (fun d _ => merge plans d) (h.fieldTrees o) =
        result.map fun _ => h'.fieldTrees o
  | .entries elements position byId rest _ placed => ∀ first earlier,
      Recalls first h elements position byId earlier →
        mergeEntries plans.graph elements.elementType elements.keyed (elements.items.map first.snapshot) rest
          (fun d _ => merge plans d) position earlier =
            placed.error.elim (.ok (placed.items.map h'.snapshot)) .error
  | .list l items result =>
      mergeEntries plans.graph (h.list l).elementType (h.list l).keyed ((h.list l).items.map h.snapshot) items
        (fun d _ => merge plans d) 0 [] = result.map fun _ => (h'.list l).items.map h'.snapshot

theorem Goal.Halts.merges {h : Heap} {g : Goal} (hhalt : g.Halts plans h) (hs : h.Sound plans)
    (hst : g.Stands plans h) : g.Merges plans h h := by
  cases hhalt with
  | @unknownType o data hplan =>
      change merge plans data (h.snapshot o) = _
      rw [merge, hs.tidy.snapshot_eq hst, mergeWith, hplan]
      rfl
  | @expectedObject o data plan hplan hdata =>
      change merge plans data (h.snapshot o) = _
      rw [merge, hs.tidy.snapshot_eq hst, mergeWith, hplan]
      cases data with
      | object members => exact absurd rfl (hdata members)
      | _ => rfl
  | noField => rfl
  | refused hdemand => exact mergeField_of_refuse hdemand
  | noEntry => exact fun first earlier _ => rfl
  | refusedEntry hconcrete =>
      intro first earlier _
      rw [mergeEntries, hconcrete]
      rfl

/-! ### One field -/

section Field

variable {h h' : Heap} {o x : ObjectId} {l : ListId} {typeName concrete element : String} {keyed : Bool}
  {field : FieldPlan} {data : Json} {items : List Json} {result : Except PatchError (List String)}
  {arranged : Except PatchError Reconciliation} {q : List Notification}

theorem Goal.Merges.keep (hs : h.Sound plans) (hw : h.Writable plans o typeName [field])
    (hdemand : demand plans.graph typeName field data = .fill concrete)
    (hkept : h.kept? o field.wireName concrete data = some x)
    (hinner : Writes plans h (.object x data result) h' q)
    (hmerges : Goal.Merges plans h h' (.object x data result)) :
    Goal.Merges plans h h' (.field o typeName field data (result.map fun _ => false)) := by
  have hslot := (Heap.slot_of_kept hkept).1
  have hfields : (h'.object o).fields = ((h.write o field.wireName (.object x)).object o).fields := by
    rw [Heap.write_eq_self hslot]
    exact hinner.spares.fields hw.object fun _ => hs.tidy.not_below_object hslot
  have htrees := Heap.fieldTrees_of_write hs.tidy hinner.evolves
    (Writes.keep hdemand hkept hinner).spares hfields
  rw [Goal.Merges] at hmerges
  rw [Goal.Merges, mergeField_of_fill hdemand, hs.tidy.filter_fieldTrees, hkept,
    Option.map_some, Option.getD_some, hmerges, htrees]
  cases result <;> rfl

theorem Goal.Merges.replace (hs : h.Sound plans) (hw : h.Writable plans o typeName [field])
    (hdemand : demand plans.graph typeName field data = .fill concrete)
    (hkept : h.kept? o field.wireName concrete data = none)
    (hinner : Writes plans (h.withObject o field.wireName concrete) (.object h.nextObject data result) h' q)
    (hmerges : Goal.Merges plans (h.withObject o field.wireName concrete) h'
      (.object h.nextObject data result)) :
    Goal.Merges plans h h' (.field o typeName field data
      (result.map fun _ => h.differs o field.wireName (.object h.nextObject))) := by
  have hs₁ := hs.withObject hw hdemand
  have hold := (Heap.hasObject_withObject hw.object field.wireName concrete).2 (.inl hw.object)
  have hslot := h.slot_withObject_self o field.wireName concrete
  have hfields : (h'.object o).fields =
      ((h.write o field.wireName (.object h.nextObject)).object o).fields := by
    rw [← Heap.fields_withObject h o field.wireName concrete hw.object]
    exact hinner.spares.fields hold fun _ => hs₁.tidy.not_below_object hslot
  have hwrites := Writes.replace hdemand hkept hinner
  have htrees := Heap.fieldTrees_of_write hs.tidy hwrites.evolves hwrites.spares hfields
  rw [Goal.Merges, Heap.snapshot_withObject hw.object hs₁.tidy] at hmerges
  rw [Goal.Merges, mergeField_of_fill hdemand, hs.tidy.filter_fieldTrees, hkept,
    Option.map_none, Option.getD_none, hmerges, htrees]
  cases result <;> rfl

theorem Goal.Merges.reuse (hd : plans.Distinct) (hs : h.Sound plans)
    (hw : h.Writable plans o typeName [field])
    (hdemand : demand plans.graph typeName field data = .arrange element keyed items)
    (hlist : (h.object o).list? field.wireName = some l)
    (hinner : Writes plans h (.list l items arranged) h' q)
    (hmerges : Goal.Merges plans h h' (.list l items arranged)) :
    Goal.Merges plans h h' (.field o typeName field data (arranged.map fun _ => false)) := by
  have hslot := Heap.list?_eq_some.1 hlist
  have htype := hs.listType_of_arrange hd hw hdemand hslot
  have hfields : (h'.object o).fields = ((h.write o field.wireName (.list l)).object o).fields := by
    rw [Heap.write_eq_self hslot]
    exact hinner.spares.fields hw.object fun _ => hs.tidy.not_below_items hslot
  have htrees := Heap.fieldTrees_of_write hs.tidy hinner.evolves
    (Writes.reuse hdemand hlist hinner).spares hfields
  rw [Goal.Merges, htype.1, htype.2] at hmerges
  rw [Goal.Merges, mergeField_of_arrange hdemand, Heap.Tidy.itemsAt_fieldTrees, hlist,
    Option.elim_some, hmerges, htrees]
  cases arranged <;> rfl

theorem Goal.Merges.attach (hs : h.Sound plans) (hw : h.Writable plans o typeName [field])
    (hdemand : demand plans.graph typeName field data = .arrange element keyed items)
    (hlist : (h.object o).list? field.wireName = none)
    (hinner : Writes plans (h.withList o field.wireName element keyed) (.list h.nextList items arranged) h' q)
    (hmerges : Goal.Merges plans (h.withList o field.wireName element keyed) h'
      (.list h.nextList items arranged)) :
    Goal.Merges plans h h' (.field o typeName field data
      (arranged.map fun _ => h.differs o field.wireName (.list h.nextList))) := by
  have hs₁ := hs.withList hw hdemand
  have hslot := h.slot_withList_self o field.wireName element keyed
  have hfields : (h'.object o).fields = ((h.write o field.wireName (.list h.nextList)).object o).fields := by
    rw [← Heap.fields_withList h o field.wireName element keyed]
    exact hinner.spares.fields ((Heap.hasObject_withList hw.object _ _ _).2 hw.object) fun _ =>
      hs₁.tidy.not_below_items hslot
  have hwrites := Writes.attach hdemand hlist hinner
  have htrees := Heap.fieldTrees_of_write hs.tidy hwrites.evolves hwrites.spares hfields
  rw [Goal.Merges, Heap.list_withList_self] at hmerges
  rw [Goal.Merges, mergeField_of_arrange hdemand, Heap.Tidy.itemsAt_fieldTrees, hlist, Option.elim_none]
  refine (congrArg _ hmerges).trans ?_
  rw [htrees]
  cases arranged <;> rfl

end Field

/-! ### Lists -/

section List

variable {h h₁ h' : Heap} {l : ListId} {list : ObjectList} {position : Nat} {byId : List (String × ObjectId)}
  {concrete : String} {data : Json} {rest : List Json} {changes : List String} {targets : List ObjectId}
  {placed : Placed} {q q₁ : List Notification}

theorem Goal.Merges.nextEntry (hd : plans.Distinct) (hs : h.Sound plans) (hl : Listed h l list byId)
    (hconcrete : concreteElement plans.graph list.elementType data = .ok concrete)
    (hentry : Writes plans (pick h list byId position concrete data).2
      (.object (pick h list byId position concrete data).1 data (.ok changes)) h₁ q₁)
    (hrest : Writes plans h₁ (.entries list (position + 1) (afterEntry data byId) rest targets placed) h' q)
    (hmerges : Goal.Merges plans (pick h list byId position concrete data).2 h₁
      (.object (pick h list byId position concrete data).1 data (.ok changes)))
    (hmerges₁ : Goal.Merges plans h₁ h'
      (.entries list (position + 1) (afterEntry data byId) rest targets placed)) :
    Goal.Merges plans h h' (.entries list position byId (data :: rest)
      ((pick h list byId position concrete data).1 :: targets)
      ⟨(pick h list byId position concrete data).1 :: placed.items,
        placed.changed ++ [((pick h list byId position concrete data).1, !changes.isEmpty)],
          placed.error⟩) := by
  intro first earlier hr
  obtain ⟨hs₁, -⟩ := hl.next hd hs hentry
  have hmade := hentry.evolves.objects (hl.hasObject_pick hs.tidy)
  have hsame := Writes.same_nextEntry hd hconcrete hentry hrest hs hl
  have hstays := hsame.snapshot hs₁.tidy hmade hrest.evolves.size_le
  rw [Goal.Merges] at hmerges
  rw [mergeEntries_cons hconcrete, hr.snapshot_pick hs.tidy, hmerges, Except.map, Except.bind,
    hmerges₁ first _ (hr.next hd hs hl hentry), List.map_cons, hstays]
  cases placed.error <;> rfl

theorem Goal.Merges.setItems (hd : plans.Distinct) (hs : h.Sound plans) (hl : h.HasList l)
    (hentries : Writes plans h (.entries (h.list l) 0 (elementIds h (h.list l)) rest targets placed) h' q)
    (hmerges : Goal.Merges plans h h' (.entries (h.list l) 0 (elementIds h (h.list l)) rest targets placed)) :
    Goal.Merges plans h (h'.setItems l (placed.contents (h.list l).items)).2
      (.list l rest (placed.result (h.list l).items
        (h'.setItems l (placed.contents (h.list l).items)).1)) := by
  have hst : Goal.Stands plans h (.entries (h.list l) 0 (elementIds h (h.list l)) rest targets placed) :=
    ⟨l, .of_list hl⟩
  obtain ⟨hs₁, -, htargets⟩ := hentries.sound_meets hd hs hst
  have hs' := ((Writes.list hentries).sound_meets hd hs hl).1
  have hmade : ∀ x ∈ placed.items, h'.HasObject x := by
    intro x hx
    rcases htargets x (hentries.evolves_picks.2.2.subset hx) with ⟨hold, -⟩ | ⟨-, hnew, -⟩
    · exact hentries.evolves.objects hold
    · exact hnew
  rw [Goal.Merges, hmerges h [] (.of_list hs.tidy l)]
  cases herror : placed.error with
  | some e =>
      rw [Placed.result, herror]
      rfl
  | none =>
      have hcontents : placed.contents (h.list l).items = placed.items := by rw [Placed.contents, herror]
      rw [Placed.result, herror]
      dsimp only
      rw [hcontents] at hs' ⊢
      have hsize : (h'.setItems l placed.items).2.objects.size = h'.objects.size :=
        Heap.size_setItems (fun x hx => hs₁.tidy.item hx) hmade
      rw [Heap.list_setItems, if_pos rfl, Option.elim_none, Except.map]
      congr 1
      apply List.map_congr_left
      intro x hx
      exact (Heap.snapshot_setItems hs'.tidy hsize hx).symm

end List

/-- **Writing is merging.** -/
theorem Writes.merges (hd : plans.Distinct) {h h' : Heap} {g : Goal} {q : List Notification}
    (hw : Writes plans h g h' q) (hs : h.Sound plans) (hst : g.Stands plans h) : g.Merges plans h h' := by
  induction hw with
  | halt hhalt => exact hhalt.merges hs hst
  | @object h h' o members plan result q hplan hfields ih =>
      have hfirst := Heap.Writable.of_plan hst hplan
      have hmerges := ih hs hfirst
      have hs' := (hfields.sound_meets hd hs hfirst).1
      rw [Goal.Merges] at hmerges
      rw [Goal.Merges, merge, hs.tidy.snapshot_eq hst, mergeWith, hplan]
      dsimp only
      rw [hmerges, hs'.tidy.snapshot_eq (hfields.evolves.objects hst), hfields.evolves.typeName hst]
      cases result <;> rfl
  | skip hget hrest ih =>
      rw [Goal.Merges, mergeFields_skip hget]
      exact ih hs hst.rest
  | stop hget hfield ih =>
      have hmerges := ih hs hst.first
      rw [Goal.Merges] at hmerges
      rw [Goal.Merges, mergeFields_cons hget, hmerges]
      rfl
  | @next h h₁ h₂ o typeName field rest data d changed result q₁ q₂ hget hfield hrest ihfield ihrest =>
      obtain ⟨hs₁, hst₁⟩ := hst.next hd hs hfield
      have hmerges := ihfield hs hst.first
      rw [Goal.Merges] at hmerges
      rw [Goal.Merges, mergeFields_cons hget, hmerges]
      refine (ihrest hs₁ hst₁).trans ?_
      cases result <;> rfl
  | @store h o typeName field data slot hdemand =>
      have hplain := plain_of_demand hdemand
      have hspares := (Writes.store (h := h) (o := o) hdemand).spares
      rw [Goal.Merges, mergeField_of_store hdemand, Except.map,
        Heap.fieldTrees_of_write hs.tidy (.write_plain hplain o _) hspares rfl, Heap.slotTree_of_plain hplain]
  | keep hdemand hkept hinner ih =>
      exact .keep hs hst hdemand hkept hinner (ih hs (hs.tidy.object (Heap.slot_of_kept hkept).1).2)
  | replace hdemand hkept hinner ih =>
      exact .replace hs hst hdemand hkept hinner
        (ih (hs.withObject hst hdemand) (Heap.made_withObject hst.object _ _))
  | reuse hdemand hlist hinner ih =>
      exact .reuse hd hs hst hdemand hlist hinner (ih hs (hs.tidy.list (Heap.list?_eq_some.1 hlist)))
  | attach hdemand hlist hinner ih =>
      exact .attach hs hst hdemand hlist hinner (ih (hs.withList hst hdemand) (Heap.made_withList _ _ _ _ _))
  | stopEntry hconcrete hentry ih =>
      obtain ⟨l, hl⟩ := hst
      have hmerges := ih hs.pick (hl.hasObject_pick hs.tidy)
      intro first earlier hr
      rw [Goal.Merges] at hmerges
      rw [mergeEntries_cons hconcrete, hr.snapshot_pick hs.tidy, hmerges]
      rfl
  | nextEntry hconcrete hentry hrest ihentry ihrest =>
      obtain ⟨l, hl⟩ := hst
      obtain ⟨hs₁, hl₁⟩ := hl.next hd hs hentry
      exact .nextEntry hd hs hl hconcrete hentry hrest (ihentry hs.pick (hl.hasObject_pick hs.tidy))
        (ihrest hs₁ ⟨l, hl₁⟩)
  | list hentries ih => exact .setItems hd hs hst hentries (ih hs ⟨_, .of_list hst⟩)

/-- **Patching refines merging.** For an object of a reached heap and any data, its tree after the call is
its tree before it with the data merged in, if the call succeeds, and merging ends with the same error if
it does not. The tree of the object is its type with what its fields hold. -/
theorem patch_refines_merge {schema : Introspection.Schema} {graph : TypeGraph} {scalars : Registry}
    (hgraph : TypeGraph.build schema = .ok graph) (hplans : Plans.build graph scalars = .ok plans) {h : Heap}
    {o : ObjectId} (hreached : Reached plans h) (ho : h.HasObject o) (data : Json) :
    ∃ result h' q, outcome (patch plans data o) h = (result, h', q) ∧
      merge plans data (h.snapshot o) = result.map (fun _ => h'.snapshot o) ∧
      h.snapshot o = .object (h.object o).typeName ((h.object o).fields.map (h.slotTree h.snapshot)) ∧
      h'.snapshot o = .object (h'.object o).typeName
        ((h'.object o).fields.map (h'.slotTree h'.snapshot)) := by
  have hd : plans.Distinct := Plans.distinct_of_build hgraph hplans
  have hs := hreached.sound hd
  have hwrites := writes_patch plans o data h
  have hs' := (hwrites.sound_meets hd hs ho).1
  refine ⟨_, _, _, rfl, hwrites.merges hd hs ho, hs.tidy.snapshot_eq ho, ?_⟩
  exact hs'.tidy.snapshot_eq (hwrites.evolves.objects ho)

section Sample

/-- The tree of a page with a title and users. -/
def pageTree (title : String) (users : List (String × String)) : Snapshot :=
  .object "Query" ⟨[("title", .scalar (.string title)), ("users", .list (users.map fun u =>
    .object "User" ⟨[("id", .scalar (.string u.1)), ("name", .scalar (.string u.2))]⟩))]⟩

/-- The tree of a page, from what is stored in the page and in its users. -/
theorem snapshot_eq_pageTree {h : Heap} {title : String} {l : ListId} {users : List (ObjectId × String × String)}
    (hstored : 2 ≤ h.objects.size ∧ (h.object ⟨0⟩).typeName = "Query" ∧
      (h.object ⟨0⟩).fields.entries = [("title", .scalar (.string title)), ("users", .list l)] ∧
      (h.list l).items = users.map (·.1) ∧ ∀ u ∈ users, (h.object u.1).typeName = "User" ∧
        (h.object u.1).fields.entries =
          [("id", .scalar (.string u.2.1)), ("name", .scalar (.string u.2.2))]) :
    h.snapshot ⟨0⟩ = pageTree title (users.map (·.2)) := by
  obtain ⟨hsize, htype, hentries, hitems, husers⟩ := hstored
  obtain ⟨depth, hdepth⟩ := Nat.exists_eq_add_of_le' hsize
  have huser : ∀ u ∈ users, h.treeWithin (depth + 1) u.1 =
      .object "User" ⟨[("id", .scalar (.string u.2.1)), ("name", .scalar (.string u.2.2))]⟩ := by
    intro u hu
    rw [Heap.treeWithin, (husers u hu).1, Table.map, (husers u hu).2]
    rfl
  have hlist : users.map (fun u => h.treeWithin (depth + 1) u.1) = users.map fun u =>
      .object "User" ⟨[("id", .scalar (.string u.2.1)), ("name", .scalar (.string u.2.2))]⟩ :=
    List.map_congr_left huser
  rw [Heap.snapshot, hdepth, Heap.treeWithin, htype, Table.map, hentries]
  simp only [List.map_cons, List.map_nil, Heap.slotTree, hitems, List.map_map, Function.comp_def, hlist, pageTree]

/-- One user is kept with another name, one is new and one is gone; but where an entry is refused, the
ones before it come first and the user that nothing was said about stays behind them. -/
theorem patch_sample_refines_merge :
    Reached (samplePlans []) grownHeap ∧ grownHeap.HasObject ⟨0⟩ ∧
      (∃ h' q, outcome (patch (samplePlans []) (newsData []) ⟨0⟩) grownHeap = (.ok ["title"], h', q) ∧
        merge (samplePlans []) (newsData []) (grownHeap.snapshot ⟨0⟩) = .ok (h'.snapshot ⟨0⟩) ∧
        grownHeap.snapshot ⟨0⟩ = pageTree "Home" [("a", "Ann"), ("b", "Ben")] ∧
        h'.snapshot ⟨0⟩ = pageTree "News" [("b", "Bob"), ("c", "Cy")]) ∧
      ∃ h' q, outcome (patch (samplePlans []) (newsData [.null]) ⟨0⟩) grownHeap =
          (.error (.expectedObject "User"), h', q) ∧
        merge (samplePlans []) (newsData [.null]) (grownHeap.snapshot ⟨0⟩) = .error (.expectedObject "User") ∧
        h'.snapshot ⟨0⟩ = pageTree "News" [("b", "Bob"), ("c", "Cy"), ("a", "Ann")] := by
  have hbefore : grownHeap.snapshot ⟨0⟩ = pageTree "Home" [("a", "Ann"), ("b", "Ben")] :=
    @snapshot_eq_pageTree _ _ ⟨0⟩ [(⟨1⟩, "a", "Ann"), (⟨2⟩, "b", "Ben")] (by decide +kernel)
  refine ⟨reached_grownHeap, hasObject_grownHeap, ?_, ?_⟩
  · obtain ⟨result, h', q, hrun, hmerge, -⟩ := patch_refines_merge build_sampleSchema build_samplePlans
      reached_grownHeap hasObject_grownHeap (newsData [])
    have hresult : (outcome (patch (samplePlans []) (newsData []) ⟨0⟩) grownHeap).1 = .ok ["title"] := by
      decide +kernel
    have hafter : (outcome (patch (samplePlans []) (newsData []) ⟨0⟩) grownHeap).2.1.snapshot ⟨0⟩ =
        pageTree "News" [("b", "Bob"), ("c", "Cy")] :=
      @snapshot_eq_pageTree _ _ ⟨0⟩ [(⟨2⟩, "b", "Bob"), (⟨3⟩, "c", "Cy")] (by decide +kernel)
    rw [hrun] at hresult hafter
    obtain rfl : result = .ok ["title"] := hresult
    exact ⟨h', q, hrun, hmerge, hbefore, hafter⟩
  · obtain ⟨result, h', q, hrun, hmerge, -⟩ := patch_refines_merge build_sampleSchema build_samplePlans
      reached_grownHeap hasObject_grownHeap (newsData [.null])
    have hresult : (outcome (patch (samplePlans []) (newsData [.null]) ⟨0⟩) grownHeap).1 =
        .error (.expectedObject "User") := by decide +kernel
    have hafter : (outcome (patch (samplePlans []) (newsData [.null]) ⟨0⟩) grownHeap).2.1.snapshot ⟨0⟩ =
        pageTree "News" [("b", "Bob"), ("c", "Cy"), ("a", "Ann")] :=
      @snapshot_eq_pageTree _ _ ⟨0⟩ [(⟨2⟩, "b", "Bob"), (⟨3⟩, "c", "Cy"), (⟨1⟩, "a", "Ann")]
        (by decide +kernel)
    rw [hrun] at hresult hafter
    obtain rfl : result = .error (.expectedObject "User") := hresult
    exact ⟨h', q, hrun, hmerge, hafter⟩

end Sample

end GraphClient.Live
