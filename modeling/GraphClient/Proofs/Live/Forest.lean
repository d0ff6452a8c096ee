import GraphClient.Proofs.Live.Typing

/-! The shape of what is written. Nothing is shared: an object stands in one field or at one place of one
list, a list stands in one field, and whatever an object leads to is younger than it. So objects and
lists form trees, two of which have nothing in common unless one is a part of the other. -/

namespace GraphClient.Live

namespace Heap

/-- That nothing refers to an object. -/
structure Loose (h : Heap) (x : ObjectId) : Prop where
  slot : ∀ o field, h.slot o field ≠ .object x
  item : ∀ l, x ∉ (h.list l).items

/-- That objects and lists form trees. -/
structure Tidy (h : Heap) : Prop where
  object : ∀ {o field x}, h.slot o field = .object x → o.number < x.number ∧ h.HasObject x
  list : ∀ {o field l}, h.slot o field = .list l → h.HasList l
  item : ∀ {l x}, x ∈ (h.list l).items → h.HasObject x
  later : ∀ {o field l x}, h.slot o field = .list l → x ∈ (h.list l).items → o.number < x.number
  objectOnce : ∀ {o p field other x}, h.slot o field = .object x → h.slot p other = .object x →
    o = p ∧ field = other
  listOnce : ∀ {o p field other l}, h.slot o field = .list l → h.slot p other = .list l →
    o = p ∧ field = other
  itemOnce : ∀ {l k x}, x ∈ (h.list l).items → x ∈ (h.list k).items → l = k
  apart : ∀ {o field l x}, h.slot o field = .object x → x ∉ (h.list l).items
  nodup : ∀ {l}, (h.list l).items.Nodup
  owner : ∀ {l x}, x ∈ (h.list l).items → (h.object x).owner = some l
  names : ∀ {o}, (h.object o).fields.names.Nodup

theorem Evolves.loose {h h' : Heap} {x : ObjectId} (he : h.Evolves h') (hx : h.HasObject x) (hl : h.Loose x) :
    h'.Loose x :=
  ⟨fun o field hs => hl.slot o field (he.slotObject hx hs), fun l hitem => hl.item l (he.item hx hitem)⟩

namespace Tidy

variable {h h' : Heap}

theorem empty : Heap.empty.Tidy := by
  have hslot : ∀ o field, Heap.empty.slot o field = .null := fun o field =>
    slot_of_not_hasObject (Nat.not_lt_zero _) field
  have hitems : ∀ l, (Heap.empty.list l).items = [] := fun l => items_of_not_hasList (Nat.not_lt_zero _)
  have hobject : ∀ o, Heap.empty.object o = default := fun o => object_of_not_hasObject (Nat.not_lt_zero _)
  refine ⟨?_, ?_, ?_, ?_, ?_, ?_, ?_, ?_, ?_, ?_, ?_⟩ <;> intros <;>
    simp only [hslot, hitems, hobject, List.not_mem_nil, List.nodup_nil, reduceCtorEq] at *
  exact List.nodup_nil

theorem hasObject_of_child (ht : h.Tidy) {o x : ObjectId} (hchild : h.Child o x) : h.HasObject x := by
  obtain ⟨field, hs | ⟨l, -, hitem⟩⟩ := child_iff.1 hchild
  · exact (ht.object hs).2
  · exact ht.item hitem

theorem lt_of_child (ht : h.Tidy) {o x : ObjectId} (hchild : h.Child o x) : o.number < x.number := by
  obtain ⟨field, hs | ⟨l, hs, hitem⟩⟩ := child_iff.1 hchild
  · exact (ht.object hs).1
  · exact ht.later hs hitem

theorem le_of_below (ht : h.Tidy) {c x : ObjectId} (hbelow : h.Below c x) : c.number ≤ x.number := by
  induction hbelow with
  | refl => exact Nat.le_refl _
  | tail _ hchild ih => exact Nat.le_trans ih (Nat.le_of_lt (ht.lt_of_child hchild))

theorem hasObject_of_below (ht : h.Tidy) {c x : ObjectId} (hc : h.HasObject c) (hbelow : h.Below c x) :
    h.HasObject x := by
  induction hbelow with
  | refl => exact hc
  | tail _ hchild _ => exact ht.hasObject_of_child hchild

/-- An object stands in one field only. -/
theorem field_unique (ht : h.Tidy) {o p x : ObjectId} {field other : String}
    (hx : x ∈ h.slotObjects (h.slot o field)) (hx' : x ∈ h.slotObjects (h.slot p other)) :
    o = p ∧ field = other := by
  rcases mem_slotObjects.1 hx with hs | ⟨l, hs, hitem⟩ <;> rcases mem_slotObjects.1 hx' with
    hs' | ⟨k, hs', hitem'⟩
  · exact ht.objectOnce hs hs'
  · exact absurd hitem' (ht.apart hs)
  · exact absurd hitem (ht.apart hs')
  · obtain rfl := ht.itemOnce hitem hitem'
    exact ht.listOnce hs hs'

theorem parent_unique (ht : h.Tidy) {o p x : ObjectId} (hchild : h.Child o x) (hchild' : h.Child p x) :
    o = p := by
  obtain ⟨field, hx⟩ := hchild
  obtain ⟨other, hx'⟩ := hchild'
  exact (ht.field_unique hx hx').1

/-- Of two objects above a third one, one is above the other. -/
theorem comparable (ht : h.Tidy) {a b x : ObjectId} (ha : h.Below a x) (hb : h.Below b x) :
    h.Below a b ∨ h.Below b a := by
  induction ha with
  | refl => exact .inr hb
  | @tail c x hac hchild ih =>
      rcases Relation.ReflTransGen.cases_tail hb with rfl | ⟨p, hbp, hchild'⟩
      · exact .inl (.tail hac hchild)
      · obtain rfl := ht.parent_unique hchild hchild'
        exact ih hbp

/-- Nothing below a child leads back. -/
theorem not_below_child (ht : h.Tidy) {o c : ObjectId} (hchild : h.Child o c) : ¬h.Below c o := fun hbelow =>
  Nat.lt_irrefl _ (Nat.lt_of_lt_of_le (ht.lt_of_child hchild) (ht.le_of_below hbelow))

/-- Nothing below the object in a field leads back. -/
theorem not_below_object (ht : h.Tidy) {o c : ObjectId} {field : String}
    (hslot : h.slot o field = .object c) :
    ¬h.Below c o :=
  ht.not_below_child (child_iff.2 ⟨field, .inl hslot⟩)

/-- The same for the elements of the list in a field. -/
theorem not_below_items (ht : h.Tidy) {o : ObjectId} {l : ListId} {field : String}
    (hslot : h.slot o field = .list l) :
    ¬∃ c ∈ (h.list l).items, h.Below c o := by
  rintro ⟨c, hc, hbelow⟩
  exact ht.not_below_child (child_iff.2 ⟨field, .inr ⟨l, hslot, hc⟩⟩) hbelow

theorem not_belowField_self (ht : h.Tidy) {o : ObjectId} {field : String} : ¬h.BelowField o field o := by
  rintro ⟨c, hc, hbelow⟩
  exact ht.not_below_child ⟨field, hc⟩ hbelow

/-- Different fields of an object have nothing in common. -/
theorem not_within (ht : h.Tidy) {o : ObjectId} {name : String} {fields : List String}
    (hname : name ∉ fields) :
    ¬h.Within o fields o name := by
  rintro ⟨field, hfield, ⟨-, rfl⟩ | hbelow⟩
  · exact hname hfield
  · exact ht.not_belowField_self hbelow

theorem eq_of_below_sibling (ht : h.Tidy) {o a b : ObjectId} (ha : h.Child o a) (hb : h.Child o b)
    (hbelow : h.Below a b) : a = b := by
  rcases Relation.ReflTransGen.cases_tail hbelow with heq | ⟨p, hap, hchild⟩
  · exact heq.symm
  · obtain rfl := ht.parent_unique hchild hb
    exact absurd hap (ht.not_below_child ha)

/-- What is below one field is not below another. -/
theorem belowField_unique (ht : h.Tidy) {o x : ObjectId} {field other : String}
    (hx : h.BelowField o field x) (hx' : h.BelowField o other x) : field = other := by
  obtain ⟨a, ha, hax⟩ := hx
  obtain ⟨b, hb, hbx⟩ := hx'
  have heq : a = b := by
    rcases ht.comparable hax hbx with hbelow | hbelow
    · exact ht.eq_of_below_sibling ⟨field, ha⟩ ⟨other, hb⟩ hbelow
    · exact (ht.eq_of_below_sibling ⟨other, hb⟩ ⟨field, ha⟩ hbelow).symm
  subst heq
  exact (ht.field_unique ha hb).2

theorem not_within_of_belowField (ht : h.Tidy) {o x : ObjectId} {name : String} {fields : List String}
    (hbelow : h.BelowField o name x) (hname : name ∉ fields) (field : String) :
    ¬h.Within o fields x field := by
  rintro ⟨other, hother, ⟨rfl, -⟩ | hbelow'⟩
  · exact ht.not_belowField_self hbelow
  · exact hname (ht.belowField_unique hbelow hbelow' ▸ hother)

/-- What is below an element does not refer to the list. -/
theorem slot_ne_list_of_below (ht : h.Tidy) {l : ListId} {x z : ObjectId} (hx : x ∈ (h.list l).items)
    (hbelow : h.Below x z) (field : String) : h.slot z field ≠ .list l := fun hs =>
  Nat.lt_irrefl _ (Nat.lt_of_lt_of_le (ht.later hs hx) (ht.le_of_below hbelow))

theorem eq_of_below_item (ht : h.Tidy) {l : ListId} {x y : ObjectId} (hx : x ∈ (h.list l).items)
    (hy : y ∈ (h.list l).items) (hbelow : h.Below x y) : x = y := by
  rcases Relation.ReflTransGen.cases_tail hbelow with heq | ⟨p, hxp, hchild⟩
  · exact heq.symm
  · obtain ⟨field, hs | ⟨k, hs, hitem⟩⟩ := child_iff.1 hchild
    · exact absurd hy (ht.apart hs)
    · obtain rfl := ht.itemOnce hitem hy
      exact absurd hs (ht.slot_ne_list_of_below hx hxp field)

/-- What is below one element is not below another. -/
theorem item_unique (ht : h.Tidy) {l : ListId} {x y z : ObjectId} (hx : x ∈ (h.list l).items)
    (hy : y ∈ (h.list l).items) (hxz : h.Below x z) (hyz : h.Below y z) : x = y := by
  rcases ht.comparable hxz hyz with hbelow | hbelow
  · exact ht.eq_of_below_item hx hy hbelow
  · exact (ht.eq_of_below_item hy hx hbelow).symm

/-- The same for an object that was not made or is an element. -/
theorem eq_of_below_target (ht : h.Tidy) {l : ListId} {c y : ObjectId}
    (hc : h.HasObject c → c ∈ (h.list l).items) (hy : y ∈ (h.list l).items) (hbelow : h.Below c y) : c = y :=
  ht.eq_of_below_item (hc (Heap.hasObject_of_below (ht.item hy) hbelow)) hy hbelow

theorem slot_ne_list_of_below_target (ht : h.Tidy) {l : ListId} {c z : ObjectId}
    (hc : h.HasObject c → c ∈ (h.list l).items) (hbelow : h.Below c z) (field : String) :
    h.slot z field ≠ .list l := by
  intro hs
  have hz : h.HasObject z := hasObject_of_slot hs nofun
  exact ht.slot_ne_list_of_below (hc (Heap.hasObject_of_below hz hbelow)) hbelow field hs

/-- A heap with no more references than another one. -/
theorem shrink (ht : h.Tidy) (hobjects : ∀ {x}, h.HasObject x → h'.HasObject x)
    (hlists : ∀ {l}, h.HasList l → h'.HasList l)
    (hobject : ∀ {o field x}, h'.slot o field = .object x → h.slot o field = .object x)
    (hlist : ∀ {o field l}, h'.slot o field = .list l → h.slot o field = .list l)
    (hitems : ∀ l, (h'.list l).items = (h.list l).items)
    (howner : ∀ {x}, h.HasObject x → (h'.object x).owner = (h.object x).owner)
    (hnames : ∀ {o}, (h'.object o).fields.names.Nodup) : h'.Tidy where
  object hs := ⟨(ht.object (hobject hs)).1, hobjects (ht.object (hobject hs)).2⟩
  list hs := hlists (ht.list (hlist hs))
  item hx := by
    rw [hitems] at hx
    exact hobjects (ht.item hx)
  later hs hx := by
    rw [hitems] at hx
    exact ht.later (hlist hs) hx
  objectOnce hs hs' := ht.objectOnce (hobject hs) (hobject hs')
  listOnce hs hs' := ht.listOnce (hlist hs) (hlist hs')
  itemOnce hx hx' := by
    rw [hitems] at hx hx'
    exact ht.itemOnce hx hx'
  apart hs := by
    rw [hitems]
    exact ht.apart (hobject hs)
  nodup {l} := by
    rw [hitems]
    exact ht.nodup
  owner hx := by
    rw [hitems] at hx
    rw [howner (ht.item hx)]
    exact ht.owner hx
  names := hnames

theorem newObject (ht : h.Tidy) (typeName : String) : (h.newObject typeName).2.Tidy := by
  refine ht.shrink (Evolves.newObject h typeName).objects id ?_ ?_ (fun _ => rfl) ?_ ?_
  · exact fun hs => by rwa [slot_newObject] at hs
  · exact fun hs => by rwa [slot_newObject] at hs
  · exact fun hx => by rw [object_newObject_of_hasObject typeName hx]
  · intro o
    rw [object_newObject]
    split
    · exact List.nodup_nil
    · exact ht.names

theorem newList (ht : h.Tidy) (elementType : String) (keyed : Bool) : (h.newList elementType keyed).2.Tidy :=
  ht.shrink id (Evolves.newList h elementType keyed).lists id id (items_newList h elementType keyed)
    (fun _ => rfl) ht.names

theorem names_write (ht : h.Tidy) (o x : ObjectId) (field : String) (s : Slot) :
    ((h.write o field s).object x).fields.names.Nodup := by
  rw [object_write]
  split
  · exact Table.names_insert_nodup ht.names field s
  · exact ht.names

/-- Writing a slot that refers to nothing, or to something that nothing else refers to. -/
theorem write (ht : h.Tidy) {o : ObjectId} (ho : h.HasObject o) {s : Slot}
    (hobject : ∀ {x}, s = .object x → o.number < x.number ∧ h.HasObject x ∧ h.Loose x)
    (hlist : ∀ {l}, s = .list l → h.HasList l ∧ (∀ p other, h.slot p other ≠ .list l) ∧
      ∀ x ∈ (h.list l).items, o.number < x.number) (field : String) : (h.write o field s).Tidy where
  object {p other x} hs := by
    rw [slot_write] at hs
    rw [HasObject, size_write ho]
    split at hs
    · rename_i heq
      exact ⟨heq.1 ▸ (hobject hs).1, (hobject hs).2.1⟩
    · exact ht.object hs
  list hs := by
    rw [slot_write] at hs
    rw [HasList, listsSize_write]
    split at hs
    · exact (hlist hs).1
    · exact ht.list hs
  item hx := by
    rw [list_write] at hx
    rw [HasObject, size_write ho]
    exact ht.item hx
  later {p other l x} hs hx := by
    rw [slot_write] at hs
    rw [list_write] at hx
    split at hs
    · rename_i heq
      exact heq.1 ▸ (hlist hs).2.2 x hx
    · exact ht.later hs hx
  objectOnce {p p' other other' x} hs hs' := by
    rw [slot_write] at hs hs'
    split at hs <;> split at hs'
    · rename_i heq heq'
      exact ⟨heq.1.trans heq'.1.symm, heq.2.trans heq'.2.symm⟩
    · exact absurd hs' ((hobject hs).2.2.slot _ _)
    · exact absurd hs ((hobject hs').2.2.slot _ _)
    · exact ht.objectOnce hs hs'
  listOnce {p p' other other' l} hs hs' := by
    rw [slot_write] at hs hs'
    split at hs <;> split at hs'
    · rename_i heq heq'
      exact ⟨heq.1.trans heq'.1.symm, heq.2.trans heq'.2.symm⟩
    · exact absurd hs' ((hlist hs).2.1 _ _)
    · exact absurd hs ((hlist hs').2.1 _ _)
    · exact ht.listOnce hs hs'
  itemOnce hx hx' := by
    rw [list_write] at hx hx'
    exact ht.itemOnce hx hx'
  apart hs := by
    rw [slot_write] at hs
    rw [list_write]
    split at hs
    · exact (hobject hs).2.2.item _
    · exact ht.apart hs
  nodup {l} := by
    rw [list_write]
    exact ht.nodup
  owner hx := by
    rw [list_write] at hx
    rw [owner_write]
    exact ht.owner hx
  names := ht.names_write o _ field s

theorem write_plain (ht : h.Tidy) {o : ObjectId} (ho : h.HasObject o) {s : Slot} (hplain : s.Plain)
    (field : String) : (h.write o field s).Tidy :=
  ht.write ho (fun hs => by subst hs; exact hplain.elim) (fun hs => by subst hs; exact hplain.elim) field

/-- Nothing refers to what was not made. -/
theorem loose (ht : h.Tidy) {x : ObjectId} (hx : ¬h.HasObject x) : h.Loose x :=
  ⟨fun _ _ hs => hx (ht.object hs).2, fun _ hitem => hx (ht.item hitem)⟩

theorem loose_newObject (ht : h.Tidy) (typeName : String) : (h.newObject typeName).2.Loose h.nextObject where
  slot o field := by
    rw [slot_newObject]
    exact (ht.loose h.not_hasObject_nextObject).slot o field
  item l := (ht.loose h.not_hasObject_nextObject).item l

theorem withObject (ht : h.Tidy) {o : ObjectId} (ho : h.HasObject o) (field typeName : String) :
    (h.withObject o field typeName).Tidy := by
  have he := Evolves.newObject h typeName
  refine (ht.newObject typeName).write (he.objects ho) (fun hs => ?_) (fun hs => by cases hs) field
  cases hs
  refine ⟨ho, ?_, ht.loose_newObject typeName⟩
  rw [HasObject, size_newObject]
  exact Nat.lt_succ_self _

theorem withList (ht : h.Tidy) {o : ObjectId} (ho : h.HasObject o) (field elementType : String)
    (keyed : Bool) : (h.withList o field elementType keyed).Tidy := by
  refine (ht.newList elementType keyed).write ho (fun hs => by cases hs) (fun hs => ?_) field
  cases hs
  refine ⟨?_, fun p other hs => h.not_hasList_nextList (ht.list hs), fun x hx => ?_⟩
  · rw [HasList, listsSize_newList]
    exact Nat.lt_succ_self _
  · rw [items_newList, items_of_not_hasList h.not_hasList_nextList] at hx
    exact absurd hx List.not_mem_nil

/-- Giving a list contents that are its own or that nothing refers to. -/
theorem setItems (ht : h.Tidy) {l : ListId} (hl : h.HasList l) {items : List ObjectId} (hnodup : items.Nodup)
    (hitems : ∀ x ∈ items, x ∈ (h.list l).items ∨
      (h.HasObject x ∧ h.Loose x ∧ ∀ o field, h.slot o field = .list l → o.number < x.number)) :
    (h.setItems l items).2.Tidy := by
  have hall : ∀ x ∈ items, h.HasObject x := fun x hx => (hitems x hx).elim ht.item fun hnew => hnew.1
  have hsize : ∀ x, (h.setItems l items).2.HasObject x ↔ h.HasObject x := fun x => by
    rw [HasObject, size_setItems (fun x hx => ht.item hx) hall, HasObject]
  -- an element of another list was not among the new contents, and did not leave the list either
  have hother : ∀ {k x}, k ≠ l → x ∈ (h.list k).items → x ∉ items ∧ x ∉ (h.list l).items := by
    intro k x hk hx
    have hnot : x ∉ (h.list l).items := fun hin => hk (ht.itemOnce hx hin)
    refine ⟨fun hin => ?_, hnot⟩
    rcases hitems x hin with hold | hnew
    · exact hnot hold
    · exact hnew.2.1.item k hx
  have hlist : ∀ {k x}, x ∈ ((h.setItems l items).2.list k).items →
      (k = l ∧ x ∈ items) ∨ (k ≠ l ∧ x ∈ (h.list k).items) := by
    intro k x hx
    rw [list_setItems] at hx
    split at hx
    · exact .inl ⟨by assumption, hx⟩
    · exact .inr ⟨by assumption, hx⟩
  refine ⟨?_, ?_, ?_, ?_, ?_, ?_, ?_, ?_, ?_, ?_, ?_⟩
  · intro o field x hs
    rw [slot_setItems] at hs
    rw [hsize]
    exact ht.object hs
  · intro o field k hs
    rw [slot_setItems] at hs
    rw [HasList, listsSize_setItems hl]
    exact ht.list hs
  · intro k x hx
    rw [hsize]
    rcases hlist hx with ⟨-, hx⟩ | ⟨-, hx⟩
    · exact hall x hx
    · exact ht.item hx
  · intro o field k x hs hx
    rw [slot_setItems] at hs
    rcases hlist hx with ⟨rfl, hin⟩ | ⟨-, hin⟩
    · rcases hitems x hin with hold | hnew
      · exact ht.later hs hold
      · exact hnew.2.2 o field hs
    · exact ht.later hs hin
  · intro o p field other x hs hs'
    rw [slot_setItems] at hs hs'
    exact ht.objectOnce hs hs'
  · intro o p field other k hs hs'
    rw [slot_setItems] at hs hs'
    exact ht.listOnce hs hs'
  · intro k k' x hx hx'
    rcases hlist hx with ⟨hk, hin⟩ | ⟨hk, hin⟩ <;> rcases hlist hx' with ⟨hk', hin'⟩ | ⟨hk', hin'⟩
    · rw [hk, hk']
    · exact absurd hin (hother hk' hin').1
    · exact absurd hin' (hother hk hin).1
    · exact ht.itemOnce hin hin'
  · intro o field k x hs hx
    rw [slot_setItems] at hs
    rcases hlist hx with ⟨rfl, hin⟩ | ⟨-, hin⟩
    · rcases hitems x hin with hold | hnew
      · exact ht.apart hs hold
      · exact hnew.2.1.slot o field hs
    · exact ht.apart hs hin
  · intro k
    rw [list_setItems]
    split
    · exact hnodup
    · exact ht.nodup
  · intro k x hx
    rw [object_setItems]
    rcases hlist hx with ⟨rfl, hin⟩ | ⟨hk, hin⟩
    · rw [if_pos hin]
    · rw [if_neg (hother hk hin).1, if_neg fun hand => (hother hk hin).2 hand.1]
      exact ht.owner hin
  · intro o
    rw [fields_setItems]
    exact ht.names

end Tidy

end Heap

end GraphClient.Live
