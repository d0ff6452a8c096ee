import GraphClient.Live.Heap
import GraphClient.Proofs.Live.Reordering

/-! Laws of the heap. Objects and lists that were never made are blank, and what is read after a step is
told by what was read before it. A field is read as its slot: one that was never written holds null. -/

namespace GraphClient

/-- A change that leaves a cell as it is leaves the arena as it is. -/
theorem Arena.modify_eq_self {α : Type} [Inhabited α] {a : Arena α} {i : Nat} {change : α → α}
    (hi : i < a.size) (heq : change (a.get i) = a.get i) : a.modify i change = a := by
  have hsize : i < a.cells.size := hi
  have hget : a.get i = a.cells[i] := by
    simp only [Arena.get, Array.getD_eq_getD_getElem?, Array.getElem?_eq_getElem hsize, Option.getD_some]
  have hset : a.cells.setIfInBounds i a.cells[i] = a.cells := by simp [Array.setIfInBounds, hsize]
  rw [Arena.modify, heq, Arena.set, if_pos hi, hget, hset]

end GraphClient

namespace GraphClient.Live

theorem ObjectId.number_inj {a b : ObjectId} : a.number = b.number ↔ a = b := by
  cases a
  cases b
  simp

theorem ListId.number_inj {a b : ListId} : a.number = b.number ↔ a = b := by
  cases a
  cases b
  simp

namespace Heap

/-- What a field holds. -/
def slot (h : Heap) (o : ObjectId) (field : String) : Slot := ((h.object o).get? field).getD .null

/-- Whether an object was made. -/
def HasObject (h : Heap) (o : ObjectId) : Prop := o.number < h.objects.size

/-- Whether a list was made. -/
def HasList (h : Heap) (l : ListId) : Prop := l.number < h.lists.size

variable {h : Heap} {o x : ObjectId} {l k : ListId}

theorem object_of_not_hasObject (ho : ¬h.HasObject o) : h.object o = default :=
  Arena.get_eq_default (Nat.le_of_not_lt ho)

theorem list_of_not_hasList (hl : ¬h.HasList l) : h.list l = default :=
  Arena.get_eq_default (Nat.le_of_not_lt hl)

theorem slot_of_not_hasObject (ho : ¬h.HasObject o) (field : String) : h.slot o field = .null := by
  rw [slot, object_of_not_hasObject ho]
  rfl

theorem items_of_not_hasList (hl : ¬h.HasList l) : (h.list l).items = [] := by
  rw [list_of_not_hasList hl]
  rfl

theorem hasObject_of_slot {field : String} {s : Slot} (hs : h.slot o field = s) (hne : s ≠ .null) :
    h.HasObject o :=
  Classical.not_not.1 fun ho => hne (hs.symm.trans (slot_of_not_hasObject ho field))

theorem hasObject_of_get? {field : String} {s : Slot} (hget : (h.object o).get? field = some s) :
    h.HasObject o :=
  Classical.not_not.1 fun ho => by
    rw [object_of_not_hasObject ho] at hget
    cases hget

theorem slot_of_get? {field : String} {s : Slot} (hget : (h.object o).get? field = some s) :
    h.slot o field = s := by
  rw [slot, hget]
  rfl

theorem hasList_of_item (hx : x ∈ (h.list l).items) : h.HasList l :=
  Classical.not_not.1 fun hl => by
    rw [items_of_not_hasList hl] at hx
    exact List.not_mem_nil hx

theorem differs_eq_decide (h : Heap) (o : ObjectId) (field : String) (s : Slot) :
    h.differs o field s = decide (h.slot o field ≠ s) := rfl

theorem object?_eq_some {field : String} :
    (h.object o).object? field = some x ↔ h.slot o field = .object x := by
  rw [Instance.object?, slot]
  cases (h.object o).get? field with
  | none => simp
  | some s => cases s <;> simp

theorem id?_eq_some {id : String} :
    (h.object o).id? = some id ↔ h.slot o Instance.idField = .scalar (.string id) := by
  rw [Instance.id?, slot]
  cases (h.object o).get? Instance.idField with
  | none => simp
  | some s =>
      cases s with
      | scalar v => cases v <;> simp
      | _ => simp

theorem id?_congr {h' : Heap} (hslot : h'.slot o Instance.idField = h.slot o Instance.idField) :
    (h'.object o).id? = (h.object o).id? := by
  apply Option.ext
  intro id
  rw [id?_eq_some, id?_eq_some, hslot]

theorem list?_eq_some {field : String} :
    (h.object o).list? field = some l ↔ h.slot o field = .list l := by
  rw [Instance.list?, slot]
  cases (h.object o).get? field with
  | none => simp
  | some s => cases s <;> simp

/-- The number that the next new object gets. -/
def nextObject (h : Heap) : ObjectId := ⟨h.objects.size⟩

/-- The number that the next new list gets. -/
def nextList (h : Heap) : ListId := ⟨h.lists.size⟩

theorem not_hasObject_nextObject (h : Heap) : ¬h.HasObject h.nextObject := Nat.lt_irrefl _

theorem not_hasList_nextList (h : Heap) : ¬h.HasList h.nextList := Nat.lt_irrefl _

theorem object_newObject (h : Heap) (t : String) (x : ObjectId) :
    (h.newObject t).2.object x = if x = h.nextObject then ⟨t, .empty, none⟩ else h.object x := by
  simp only [← ObjectId.number_inj]
  exact Arena.get_push ..

theorem object_newObject_of_hasObject (t : String) (hx : h.HasObject x) :
    (h.newObject t).2.object x = h.object x := by
  rw [object_newObject, if_neg]
  rintro rfl
  exact h.not_hasObject_nextObject hx

@[simp] theorem list_newObject (h : Heap) (t : String) (l : ListId) :
    (h.newObject t).2.list l = h.list l := rfl

@[simp] theorem size_newObject (h : Heap) (t : String) :
    (h.newObject t).2.objects.size = h.objects.size + 1 := Arena.size_push ..

/-- A new object has no fields, as if it was not there. -/
@[simp] theorem slot_newObject (h : Heap) (t : String) (x : ObjectId) (field : String) :
    (h.newObject t).2.slot x field = h.slot x field := by
  by_cases hx : x = h.nextObject
  · subst hx
    rw [slot_of_not_hasObject h.not_hasObject_nextObject, slot, object_newObject, if_pos rfl]
    rfl
  · rw [slot, object_newObject, if_neg hx]
    rfl

@[simp] theorem differs_newObject (h : Heap) (t : String) (x : ObjectId) (field : String) (s : Slot) :
    (h.newObject t).2.differs x field s = h.differs x field s := by
  rw [differs_eq_decide, differs_eq_decide, slot_newObject]

@[simp] theorem object_newList (h : Heap) (t : String) (keyed : Bool) (x : ObjectId) :
    (h.newList t keyed).2.object x = h.object x := rfl

theorem list_newList (h : Heap) (t : String) (keyed : Bool) (l : ListId) :
    (h.newList t keyed).2.list l = if l = h.nextList then ⟨t, keyed, []⟩ else h.list l := by
  simp only [← ListId.number_inj]
  exact Arena.get_push ..

theorem list_newList_of_hasList (t : String) (keyed : Bool) (hl : h.HasList l) :
    (h.newList t keyed).2.list l = h.list l := by
  rw [list_newList, if_neg]
  rintro rfl
  exact h.not_hasList_nextList hl

@[simp] theorem size_newList (h : Heap) (t : String) (keyed : Bool) :
    (h.newList t keyed).2.objects.size = h.objects.size := rfl

@[simp] theorem listsSize_newList (h : Heap) (t : String) (keyed : Bool) :
    (h.newList t keyed).2.lists.size = h.lists.size + 1 := Arena.size_push ..

@[simp] theorem slot_newList (h : Heap) (t : String) (keyed : Bool) (x : ObjectId) (field : String) :
    (h.newList t keyed).2.slot x field = h.slot x field := rfl

/-- A new list has no items, as if it was not there. -/
@[simp] theorem items_newList (h : Heap) (t : String) (keyed : Bool) (l : ListId) :
    ((h.newList t keyed).2.list l).items = (h.list l).items := by
  by_cases hl : l = h.nextList
  · subst hl
    rw [items_of_not_hasList h.not_hasList_nextList, list_newList, if_pos rfl]
  · rw [list_newList, if_neg hl]

theorem object_modifyObject (h : Heap) (o x : ObjectId) (change : Instance → Instance) :
    (h.modifyObject o change).object x = if x = o then change (h.object x) else h.object x := by
  simp only [object, modifyObject, Arena.get_modify, ObjectId.number_inj]

theorem size_modifyObject (change : Instance → Instance) (ho : h.HasObject o) :
    (h.modifyObject o change).objects.size = h.objects.size := by
  unfold HasObject at ho
  rw [modifyObject, Arena.size_modify]
  omega

theorem size_le_modifyObject (h : Heap) (o : ObjectId) (change : Instance → Instance) :
    h.objects.size ≤ (h.modifyObject o change).objects.size := by
  rw [modifyObject, Arena.size_modify]
  exact Nat.le_max_left _ _

theorem list_modifyList (h : Heap) (l k : ListId) (change : ObjectList → ObjectList) :
    (h.modifyList l change).list k = if k = l then change (h.list k) else h.list k := by
  simp only [list, modifyList, Arena.get_modify, ListId.number_inj]

theorem listsSize_modifyList (change : ObjectList → ObjectList) (hl : h.HasList l) :
    (h.modifyList l change).lists.size = h.lists.size := by
  unfold HasList at hl
  rw [modifyList, Arena.size_modify]
  omega

theorem modifyObject_eq_self {change : Instance → Instance} (ho : h.HasObject o)
    (heq : change (h.object o) = h.object o) : h.modifyObject o change = h := by
  rw [modifyObject, Arena.modify_eq_self ho heq]

theorem modifyList_eq_self {change : ObjectList → ObjectList} (hl : h.HasList l)
    (heq : change (h.list l) = h.list l) : h.modifyList l change = h := by
  rw [modifyList, Arena.modify_eq_self hl heq]

theorem write_eq_self {field : String} {s : Slot} (hs : h.slot o field = s) : h.write o field s = h := by
  rw [write, differs_eq_decide]
  simp [hs]

theorem object_write (h : Heap) (o x : ObjectId) (field : String) (s : Slot) :
    (h.write o field s).object x =
      if x = o ∧ h.slot o field ≠ s then
        { h.object x with fields := (h.object x).fields.insert field s }
      else h.object x := by
  rw [write, differs_eq_decide]
  by_cases hs : h.slot o field = s
  · simp [hs]
  · simp [hs, object_modifyObject]

theorem object_write_of_ne (hx : x ≠ o) (field : String) (s : Slot) :
    (h.write o field s).object x = h.object x := by
  rw [object_write, if_neg fun hand => hx hand.1]

@[simp] theorem typeName_write (h : Heap) (o x : ObjectId) (field : String) (s : Slot) :
    ((h.write o field s).object x).typeName = (h.object x).typeName := by
  rw [object_write]
  split <;> rfl

@[simp] theorem owner_write (h : Heap) (o x : ObjectId) (field : String) (s : Slot) :
    ((h.write o field s).object x).owner = (h.object x).owner := by
  rw [object_write]
  split <;> rfl

theorem get?_write (h : Heap) (o x : ObjectId) (field name : String) (s : Slot) :
    ((h.write o field s).object x).get? name =
      if x = o ∧ name = field ∧ h.slot o field ≠ s then some s else (h.object x).get? name := by
  rw [object_write]
  by_cases hx : x = o ∧ h.slot o field ≠ s
  · rw [if_pos hx, Instance.get?, Table.get?_insert]
    simp [hx, Instance.get?]
  · have hx' : ¬(x = o ∧ name = field ∧ h.slot o field ≠ s) := fun hand => hx ⟨hand.1, hand.2.2⟩
    rw [if_neg hx, if_neg hx']

@[simp] theorem slot_write (h : Heap) (o x : ObjectId) (field name : String) (s : Slot) :
    (h.write o field s).slot x name = if x = o ∧ name = field then s else h.slot x name := by
  rw [slot, get?_write]
  by_cases hx : x = o ∧ name = field
  · obtain ⟨rfl, rfl⟩ := hx
    by_cases hs : h.slot x name = s
    · rw [if_neg fun hand => hand.2.2 hs, if_pos ⟨rfl, rfl⟩]
      exact hs
    · rw [if_pos ⟨rfl, rfl, hs⟩, if_pos ⟨rfl, rfl⟩]
      rfl
  · rw [if_neg fun hand => hx ⟨hand.1, hand.2.1⟩, if_neg hx]
    rfl

@[simp] theorem list_write (h : Heap) (o : ObjectId) (field : String) (s : Slot) (l : ListId) :
    (h.write o field s).list l = h.list l := by
  rw [write]
  split <;> rfl

theorem size_write (ho : h.HasObject o) (field : String) (s : Slot) :
    (h.write o field s).objects.size = h.objects.size := by
  rw [write]
  split
  · exact size_modifyObject _ ho
  · rfl

@[simp] theorem listsSize_write (h : Heap) (o : ObjectId) (field : String) (s : Slot) :
    (h.write o field s).lists.size = h.lists.size := by
  rw [write]
  split <;> rfl

theorem size_le_write (h : Heap) (o : ObjectId) (field : String) (s : Slot) :
    h.objects.size ≤ (h.write o field s).objects.size := by
  rw [write]
  split
  · exact size_le_modifyObject h o _
  · exact Nat.le_refl _

theorem fields_write_of_ne (hx : x ≠ o) (field : String) (s : Slot) :
    ((h.write o field s).object x).fields = (h.object x).fields := by
  rw [object_write_of_ne hx]

/-- The heap with a new object in a field. -/
def withObject (h : Heap) (o : ObjectId) (field typeName : String) : Heap :=
  (h.newObject typeName).2.write o field (.object h.nextObject)

/-- The heap with a new list in a field. -/
def withList (h : Heap) (o : ObjectId) (field elementType : String) (keyed : Bool) : Heap :=
  (h.newList elementType keyed).2.write o field (.list h.nextList)

@[simp] theorem slot_withObject (h : Heap) (o x : ObjectId) (field typeName name : String) :
    (h.withObject o field typeName).slot x name =
      if x = o ∧ name = field then .object h.nextObject else h.slot x name := by
  rw [withObject, slot_write, slot_newObject]

@[simp] theorem slot_withList (h : Heap) (o x : ObjectId) (field elementType name : String) (keyed : Bool) :
    (h.withList o field elementType keyed).slot x name =
      if x = o ∧ name = field then .list h.nextList else h.slot x name := by
  rw [withList, slot_write, slot_newList]

@[simp] theorem list_withObject (h : Heap) (o : ObjectId) (field typeName : String) (l : ListId) :
    (h.withObject o field typeName).list l = h.list l := by
  rw [withObject, list_write, list_newObject]

theorem list_withList (h : Heap) (o : ObjectId) (field elementType : String) (keyed : Bool) (l : ListId) :
    (h.withList o field elementType keyed).list l =
      if l = h.nextList then ⟨elementType, keyed, []⟩ else h.list l := by
  rw [withList, list_write, list_newList]

@[simp] theorem items_withList (h : Heap) (o : ObjectId) (field elementType : String) (keyed : Bool)
    (l : ListId) : ((h.withList o field elementType keyed).list l).items = (h.list l).items := by
  rw [withList, list_write, items_newList]

theorem hasObject_withObject (ho : h.HasObject o) (field typeName : String) :
    (h.withObject o field typeName).HasObject x ↔ h.HasObject x ∨ x = h.nextObject := by
  have ho' : (h.newObject typeName).2.HasObject o := by
    rw [HasObject, size_newObject]
    exact Nat.lt_succ_of_lt ho
  rw [HasObject, withObject, size_write ho', size_newObject, Nat.lt_succ_iff_lt_or_eq, HasObject,
    ← ObjectId.number_inj]
  rfl

theorem hasObject_withList (ho : h.HasObject o) (field elementType : String) (keyed : Bool) :
    (h.withList o field elementType keyed).HasObject x ↔ h.HasObject x := by
  have ho' : (h.newList elementType keyed).2.HasObject o := ho
  rw [HasObject, withList, size_write ho', size_newList, HasObject]

theorem hasList_withList (h : Heap) (o : ObjectId) (field elementType : String) (keyed : Bool) (l : ListId) :
    (h.withList o field elementType keyed).HasList l ↔ h.HasList l ∨ l = h.nextList := by
  rw [HasList, withList, listsSize_write, listsSize_newList, Nat.lt_succ_iff_lt_or_eq, HasList,
    ← ListId.number_inj]
  rfl

/-- The new object is there. -/
theorem made_withObject (ho : h.HasObject o) (field typeName : String) :
    (h.withObject o field typeName).HasObject h.nextObject :=
  (hasObject_withObject ho field typeName).2 (.inr rfl)

/-- The new list is there. -/
theorem made_withList (h : Heap) (o : ObjectId) (field elementType : String) (keyed : Bool) :
    (h.withList o field elementType keyed).HasList h.nextList :=
  (hasList_withList h o field elementType keyed _).2 (.inr rfl)

theorem slot_withObject_self (h : Heap) (o : ObjectId) (field typeName : String) :
    (h.withObject o field typeName).slot o field = .object h.nextObject := by
  rw [slot_withObject, if_pos ⟨rfl, rfl⟩]

theorem slot_withList_self (h : Heap) (o : ObjectId) (field elementType : String) (keyed : Bool) :
    (h.withList o field elementType keyed).slot o field = .list h.nextList := by
  rw [slot_withList, if_pos ⟨rfl, rfl⟩]

/-- The new list is empty. -/
theorem list_withList_self (h : Heap) (o : ObjectId) (field elementType : String) (keyed : Bool) :
    (h.withList o field elementType keyed).list h.nextList = ⟨elementType, keyed, []⟩ := by
  rw [list_withList, if_pos rfl]

/-- The items that a list loses. -/
def gone (h : Heap) (l : ListId) (items : List ObjectId) : List ObjectId :=
  (reorder (h.list l).items items).removed.filterMap fun i => (h.list l).items[i]?

theorem setItems_snd (h : Heap) (l : ListId) (items : List ObjectId) :
    (h.setItems l items).2 =
      (items.foldl (fun h o => h.setOwner l o)
        ((h.gone l items).foldl (fun h o => h.clearOwner l o) h)).modifyList
        l fun s => { s with items := items } := rfl

theorem lists_foldl_clearOwner (h : Heap) (l : ListId) (objects : List ObjectId) :
    (objects.foldl (fun h o => h.clearOwner l o) h).lists = h.lists := by
  induction objects generalizing h with
  | nil => rfl
  | cons o rest ih => exact ih _

theorem lists_foldl_setOwner (h : Heap) (l : ListId) (objects : List ObjectId) :
    (objects.foldl (fun h o => h.setOwner l o) h).lists = h.lists := by
  induction objects generalizing h with
  | nil => rfl
  | cons o rest ih => exact ih _

theorem object_foldl_clearOwner (h : Heap) (l : ListId) (objects : List ObjectId) (x : ObjectId) :
    (objects.foldl (fun h o => h.clearOwner l o) h).object x =
      if x ∈ objects ∧ (h.object x).owner = some l then { h.object x with owner := none }
      else h.object x := by
  induction objects generalizing h with
  | nil => simp
  | cons o rest ih =>
      rw [List.foldl_cons, ih, clearOwner, object_modifyObject]
      by_cases hx : x = o
      · subst hx
        by_cases howner : (h.object x).owner = some l <;> simp [howner]
      · simp [hx]

theorem object_foldl_setOwner (h : Heap) (l : ListId) (objects : List ObjectId) (x : ObjectId) :
    (objects.foldl (fun h o => h.setOwner l o) h).object x =
      if x ∈ objects then { h.object x with owner := some l } else h.object x := by
  induction objects generalizing h with
  | nil => simp
  | cons o rest ih =>
      rw [List.foldl_cons, ih, setOwner, object_modifyObject]
      by_cases hx : x = o
      · subst hx
        simp
      · simp [hx]

theorem size_foldl_clearOwner {objects : List ObjectId} (hall : ∀ x ∈ objects, h.HasObject x) (l : ListId) :
    (objects.foldl (fun h o => h.clearOwner l o) h).objects.size = h.objects.size := by
  induction objects generalizing h with
  | nil => rfl
  | cons o rest ih =>
      have hsize : (h.clearOwner l o).objects.size = h.objects.size :=
        size_modifyObject _ (hall o List.mem_cons_self)
      rw [List.foldl_cons, ih, hsize]
      intro x hx
      rw [HasObject, hsize]
      exact hall x (List.mem_cons_of_mem _ hx)

theorem size_foldl_setOwner {objects : List ObjectId} (hall : ∀ x ∈ objects, h.HasObject x) (l : ListId) :
    (objects.foldl (fun h o => h.setOwner l o) h).objects.size = h.objects.size := by
  induction objects generalizing h with
  | nil => rfl
  | cons o rest ih =>
      have hsize : (h.setOwner l o).objects.size = h.objects.size :=
        size_modifyObject _ (hall o List.mem_cons_self)
      rw [List.foldl_cons, ih, hsize]
      intro x hx
      rw [HasObject, hsize]
      exact hall x (List.mem_cons_of_mem _ hx)

/-- An item that is not among the new ones is lost if it was there. -/
theorem mem_gone {items : List ObjectId} (hx : x ∉ items) : x ∈ h.gone l items ↔ x ∈ (h.list l).items := by
  rw [gone, List.mem_filterMap]
  constructor
  · rintro ⟨i, -, hi⟩
    exact List.mem_of_getElem? hi
  · intro hold
    obtain ⟨i, hi, heq⟩ := List.getElem_of_mem hold
    refine ⟨i, ?_, by rw [List.getElem?_eq_getElem hi, heq]⟩
    rw [reorder_eq, mem_removedOf]
    refine ⟨hi, fun k hk hsource => hx ?_⟩
    have hitem := getElem?_source hk
    rw [hsource, List.getElem?_eq_getElem hi, heq, Option.some.injEq] at hitem
    rw [hitem]
    exact List.mem_of_getElem? (getElem?_target hk)

theorem hasObject_of_mem_gone {items : List ObjectId} (hall : ∀ x ∈ (h.list l).items, h.HasObject x) :
    ∀ x ∈ h.gone l items, h.HasObject x := by
  intro x hx
  obtain ⟨i, -, hi⟩ := List.mem_filterMap.1 hx
  exact hall x (List.mem_of_getElem? hi)

theorem list_setItems (h : Heap) (l k : ListId) (items : List ObjectId) :
    (h.setItems l items).2.list k = if k = l then { h.list k with items := items } else h.list k := by
  rw [setItems_snd, list_modifyList]
  simp only [list, lists_foldl_setOwner, lists_foldl_clearOwner]

/-- Only owners change: that of a new item becomes the list, and an item that is lost has none. -/
theorem object_setItems (h : Heap) (l : ListId) (items : List ObjectId) (x : ObjectId) :
    (h.setItems l items).2.object x =
      if x ∈ items then { h.object x with owner := some l }
      else if x ∈ (h.list l).items ∧ (h.object x).owner = some l then { h.object x with owner := none }
      else h.object x := by
  have hmodify : (h.setItems l items).2.object x = (items.foldl (fun h o => h.setOwner l o)
      ((h.gone l items).foldl (fun h o => h.clearOwner l o) h)).object x := rfl
  rw [hmodify, object_foldl_setOwner, object_foldl_clearOwner]
  by_cases hx : x ∈ items
  · rw [if_pos hx, if_pos hx]
    split <;> rfl
  · rw [if_neg hx, if_neg hx]
    simp only [mem_gone hx]

@[simp] theorem typeName_setItems (h : Heap) (l : ListId) (items : List ObjectId) (x : ObjectId) :
    ((h.setItems l items).2.object x).typeName = (h.object x).typeName := by
  rw [object_setItems]
  split
  · rfl
  · split <;> rfl

@[simp] theorem fields_setItems (h : Heap) (l : ListId) (items : List ObjectId) (x : ObjectId) :
    ((h.setItems l items).2.object x).fields = (h.object x).fields := by
  rw [object_setItems]
  split
  · rfl
  · split <;> rfl

@[simp] theorem slot_setItems (h : Heap) (l : ListId) (items : List ObjectId) (x : ObjectId)
    (field : String) : (h.setItems l items).2.slot x field = h.slot x field := by
  simp only [slot, Instance.get?, fields_setItems]

theorem size_le_foldl {change : Heap → ObjectId → Heap}
    (hchange : ∀ h o, h.objects.size ≤ (change h o).objects.size)
    (objects : List ObjectId) (h : Heap) : h.objects.size ≤ (objects.foldl change h).objects.size := by
  induction objects generalizing h with
  | nil => exact Nat.le_refl _
  | cons o rest ih => exact Nat.le_trans (hchange h o) (ih _)

theorem size_le_setItems (h : Heap) (l : ListId) (items : List ObjectId) :
    h.objects.size ≤ (h.setItems l items).2.objects.size :=
  Nat.le_trans (size_le_foldl (fun h o => size_le_modifyObject h o _) (h.gone l items) h)
    (size_le_foldl (fun h o => size_le_modifyObject h o _) items _)

theorem listsSize_le_setItems (h : Heap) (l : ListId) (items : List ObjectId) :
    h.lists.size ≤ (h.setItems l items).2.lists.size := by
  rw [setItems_snd, modifyList, Arena.size_modify, lists_foldl_setOwner, lists_foldl_clearOwner]
  exact Nat.le_max_left _ _

theorem size_setItems {items : List ObjectId} (hold : ∀ x ∈ (h.list l).items, h.HasObject x)
    (hnew : ∀ x ∈ items, h.HasObject x) : (h.setItems l items).2.objects.size = h.objects.size := by
  have hgone : ((h.gone l items).foldl (fun h o => h.clearOwner l o) h).objects.size = h.objects.size :=
    size_foldl_clearOwner (hasObject_of_mem_gone hold) l
  have hset := size_foldl_setOwner (fun x hx => by
    rw [HasObject, hgone]
    exact hnew x hx) l
  exact hset.trans hgone

theorem listsSize_setItems (hl : h.HasList l) (items : List ObjectId) :
    (h.setItems l items).2.lists.size = h.lists.size := by
  have hsize : (items.foldl (fun h o => h.setOwner l o)
      ((h.gone l items).foldl (fun h o => h.clearOwner l o) h)).lists.size = h.lists.size := by
    rw [lists_foldl_setOwner, lists_foldl_clearOwner]
  rw [setItems_snd, listsSize_modifyList _ (by rw [HasList, hsize]; exact hl), hsize]

/-- **The changes of a list replay.** Whatever a list holds and is to hold, in whatever order and however
often, its reordering accounts for all positions, and the list then has its new items. -/
theorem setItems_accounts (h : Heap) (l : ListId) (items : List ObjectId) :
    (h.setItems l items).1.Accounts (h.list l).items items (kept (h.list l).items items) ∧
      ((h.setItems l items).2.list l).items = items := by
  refine ⟨reorder_accounts _ _, ?_⟩
  rw [list_setItems, if_pos rfl]

/-- A list that keeps its items changes nothing. -/
theorem setItems_self (hl : h.HasList l) (hall : ∀ x ∈ (h.list l).items, h.HasObject x)
    (hdistinct : (h.list l).items.Nodup) (howner : ∀ x ∈ (h.list l).items, (h.object x).owner = some l) :
    h.setItems l (h.list l).items = (⟨[], [], [], []⟩, h) := by
  have hset : ∀ objects : List ObjectId, (∀ x ∈ objects, x ∈ (h.list l).items) →
      objects.foldl (fun h o => h.setOwner l o) h = h := by
    intro objects
    induction objects with
    | nil => exact fun _ => rfl
    | cons o rest ih =>
        intro hmem
        have ho := hmem o List.mem_cons_self
        have hself : h.setOwner l o = h := modifyObject_eq_self (hall o ho) (by rw [← howner o ho])
        rw [List.foldl_cons, hself]
        exact ih fun x hx => hmem x (List.mem_cons_of_mem _ hx)
  have hgone : h.gone l (h.list l).items = [] := by
    rw [gone, reorder_self hdistinct]
    rfl
  have hheap : (h.setItems l (h.list l).items).2 = h := by
    rw [setItems_snd, hgone, List.foldl_nil, hset _ fun _ hx => hx]
    exact modifyList_eq_self hl rfl
  exact Prod.ext (reorder_self hdistinct) hheap

end Heap

end GraphClient.Live
