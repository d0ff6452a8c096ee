import GraphClient.Proofs.Live.Renaming
import GraphClient.Proofs.Live.Snapshot

/-! A part of a heap as it is seen in another heap, with other numbers and next to other objects. Whatever is
written into the part can be written in the other heap just so: the same notifications come, and the part
is then seen as before. New objects and lists join the part, and are seen as those that are new there. -/

namespace GraphClient.Live

/-! ### Numbers that are taken -/

/-- Other numbers for some of the things that there are, and what there is on the other side. -/
structure Matching (α : Type) where
  names : Equiv.Perm α
  part : α → Prop
  made : α → Prop
  other : α → Prop

namespace Matching

variable {α : Type} {m m₁ m₂ : Matching α} {n n' : α}

/-- That what was matched stays so, and that only new things are matched besides. A thing that has the same
number on both sides keeps it. -/
structure Extends (m m₁ : Matching α) : Prop where
  made : ∀ {x}, m.made x → m₁.made x
  other : ∀ {x}, m.other x → m₁.other x
  part : ∀ {x}, m.part x → m₁.part x
  agree : ∀ {x}, m.part x → m₁.names x = m.names x
  fresh : ∀ {x}, m₁.part x → m.part x ∨ ¬m.made x
  fixed : ∀ {x}, m.made x → m.other x → m.names x = x → m₁.names x = x

namespace Extends

theorem refl (m : Matching α) : m.Extends m := ⟨id, id, id, fun _ => rfl, .inl, fun _ _ => id⟩

theorem trans (hfirst : m.Extends m₁) (hsecond : m₁.Extends m₂) : m.Extends m₂ where
  made hx := hsecond.made (hfirst.made hx)
  other hx := hsecond.other (hfirst.other hx)
  part hx := hsecond.part (hfirst.part hx)
  agree hx := (hsecond.agree (hfirst.part hx)).trans (hfirst.agree hx)
  fresh hx := (hsecond.fresh hx).elim hfirst.fresh fun hnew => .inr fun hmade => hnew (hfirst.made hmade)
  fixed hmade hother hsame :=
    hsecond.fixed (hfirst.made hmade) (hfirst.other hother) (hfirst.fixed hmade hother hsame)

end Extends

/-- One more thing on each side. -/
def add [DecidableEq α] (m : Matching α) (n n' : α) : Matching α where
  names := m.names.trans (Equiv.swap (m.names n) n')
  part x := m.part x ∨ x = n
  made x := m.made x ∨ x = n
  other x := m.other x ∨ x = n'

variable [DecidableEq α]

theorem names_add_self (m : Matching α) (n n' : α) : (m.add n n').names n = n' :=
  Equiv.swap_apply_left _ _

theorem names_add {x : α} (hne : x ≠ n) (hne' : m.names x ≠ n') :
    (m.add n n').names x = m.names x :=
  Equiv.swap_apply_of_ne_of_ne (fun heq => hne (m.names.injective heq)) hne'

theorem extends_add (hn : ¬m.made n) (hn' : ¬m.other n')
    (hpart : ∀ {x}, m.part x → m.made x ∧ m.other (m.names x)) : m.Extends (m.add n n') where
  made := .inl
  other := .inl
  part := .inl
  agree {x} hx := by
    refine names_add ?_ ?_
    · rintro rfl
      exact hn (hpart hx).1
    · intro heq
      exact hn' (heq ▸ (hpart hx).2)
  fresh {x} hx := by
    refine hx.imp_right ?_
    rintro rfl
    exact hn
  fixed {x} hmade hother hsame := by
    rw [names_add, hsame]
    · rintro rfl
      exact hn hmade
    · rw [hsame]
      rintro rfl
      exact hn' hother

end Matching

/-! ### Parts of heaps -/

/-- Some objects and lists of a heap. -/
structure Part where
  objects : ObjectId → Prop
  lists : ListId → Prop

/-- That what a slot refers to is in a part. -/
def Part.Holds (p : Part) : Slot → Prop
  | .object x => p.objects x
  | .list l => p.lists l
  | .null | .scalar _ | .scalars _ => True

theorem Part.Holds.rename_eq {p : Part} {s : Slot} (hs : p.Holds s) {ρ ρ' : Renaming}
    (hobjects : ∀ {x}, p.objects x → ρ'.objects x = ρ.objects x)
    (hlists : ∀ {l}, p.lists l → ρ'.lists l = ρ.lists l) : s.rename ρ' = s.rename ρ := by
  cases s with
  | object x => exact congrArg Slot.object (hobjects hs)
  | list l => exact congrArg Slot.list (hlists hs)
  | _ => rfl

/-- That a notification is about a part, and about nothing that is not in it. -/
def Part.HoldsNotice (p : Part) : Notification → Prop
  | .field o _ => p.objects o
  | .list l changes => p.lists l ∧ ∀ change ∈ changes, ∀ x, change.item? = some x → p.objects x

/-- A part of a heap, and where it stands in another heap. -/
structure Image where
  part : Part
  names : Renaming
  heap : Heap

namespace Image

/-- The objects that are seen, of those that there are. -/
def objects (i : Image) (h : Heap) : Matching ObjectId :=
  ⟨i.names.objects, i.part.objects, h.HasObject, i.heap.HasObject⟩

/-- The lists that are seen, of those that there are. -/
def lists (i : Image) (h : Heap) : Matching ListId :=
  ⟨i.names.lists, i.part.lists, h.HasList, i.heap.HasList⟩

/-- That the part of a heap is seen, and that it leads to nothing outside of it. -/
structure Shows (i : Image) (h : Heap) : Prop where
  made : ∀ {x}, i.part.objects x → h.HasObject x ∧ i.heap.HasObject (i.names.objects x)
  madeList : ∀ {l}, i.part.lists l → h.HasList l ∧ i.heap.HasList (i.names.lists l)
  typeName : ∀ {x}, i.part.objects x → (i.heap.object (i.names.objects x)).typeName = (h.object x).typeName
  fields : ∀ {x}, i.part.objects x →
    (i.heap.object (i.names.objects x)).fields = (h.object x).fields.map (.rename i.names)
  list : ∀ {l}, i.part.lists l → i.heap.list (i.names.lists l) = (h.list l).rename i.names
  holds : ∀ {x}, i.part.objects x → ∀ e ∈ (h.object x).fields.entries, i.part.Holds e.2
  item : ∀ {l}, i.part.lists l → ∀ x ∈ (h.list l).items, i.part.objects x

/-- That what was seen of a heap is still seen of a later one, besides new objects and lists. What is not in
the part stays as it is, and as many objects are new on both sides. -/
structure Grows (i : Image) (h : Heap) (i₁ : Image) (h₁ : Heap) : Prop where
  objects : (i.objects h).Extends (i₁.objects h₁)
  lists : (i.lists h).Extends (i₁.lists h₁)
  object : ∀ {x}, h.HasObject x → ¬i.part.objects x → h₁.object x = h.object x
  list : ∀ {l}, h.HasList l → ¬i.part.lists l → h₁.list l = h.list l
  size : h₁.objects.size + i.heap.objects.size = h.objects.size + i₁.heap.objects.size

variable {i i₁ i₂ : Image} {h h₁ h₂ : Heap} {o x : ObjectId} {l : ListId}

namespace Grows

theorem refl (i : Image) (h : Heap) : i.Grows h i h := ⟨.refl _, .refl _, fun _ _ => rfl, fun _ _ => rfl, rfl⟩

theorem trans (hfirst : i.Grows h i₁ h₁) (hsecond : i₁.Grows h₁ i₂ h₂) : i.Grows h i₂ h₂ where
  objects := hfirst.objects.trans hsecond.objects
  lists := hfirst.lists.trans hsecond.lists
  object {x} hx hnot := by
    have hnot₁ : ¬i₁.part.objects x := fun hin => (hfirst.objects.fresh hin).elim hnot fun hnew => hnew hx
    rw [hsecond.object (hfirst.objects.made hx) hnot₁, hfirst.object hx hnot]
  list {l} hl hnot := by
    have hnot₁ : ¬i₁.part.lists l := fun hin => (hfirst.lists.fresh hin).elim hnot fun hnew => hnew hl
    rw [hsecond.list (hfirst.lists.made hl) hnot₁, hfirst.list hl hnot]
  size := by
    have hsize := hfirst.size
    have hsize₁ := hsecond.size
    omega

/-- What was seen keeps its name. -/
theorem name (hg : i.Grows h i₁ h₁) (hx : i.part.objects x) : i₁.names.objects x = i.names.objects x :=
  hg.objects.agree hx

theorem listName (hg : i.Grows h i₁ h₁) (hl : i.part.lists l) : i₁.names.lists l = i.names.lists l :=
  hg.lists.agree hl

theorem part (hg : i.Grows h i₁ h₁) (hx : i.part.objects x) : i₁.part.objects x := hg.objects.part hx

theorem partList (hg : i.Grows h i₁ h₁) (hl : i.part.lists l) : i₁.part.lists l := hg.lists.part hl

end Grows

namespace Shows

theorem slot (hs : i.Shows h) (hx : i.part.objects x) (field : String) :
    i.heap.slot (i.names.objects x) field = (h.slot x field).rename i.names := by
  rw [Heap.slot, Instance.get?, hs.fields hx, Table.get?_map, Heap.slot, Instance.get?]
  cases (h.object x).fields.get? field <;> rfl

theorem holds_slot (hs : i.Shows h) (hx : i.part.objects x) (field : String) :
    i.part.Holds (h.slot x field) := by
  rw [Heap.slot]
  cases hget : (h.object x).get? field with
  | none => trivial
  | some s => exact hs.holds hx _ (Table.mem_of_get? hget)

theorem differs (hs : i.Shows h) (hx : i.part.objects x) (field : String) (s : Slot) :
    i.heap.differs (i.names.objects x) field (s.rename i.names) = h.differs x field s := by
  rw [Heap.differs_eq_decide, Heap.differs_eq_decide, hs.slot hx]
  exact decide_eq_decide.2 (not_congr (Slot.rename_injective i.names).eq_iff)

theorem object? (hs : i.Shows h) (hx : i.part.objects x) (field : String) :
    (i.heap.object (i.names.objects x)).object? field =
      ((h.object x).object? field).map i.names.objects := by
  rw [Instance.object?, Instance.get?, hs.fields hx, Table.get?_map, Instance.object?, Instance.get?]
  rcases (h.object x).fields.get? field with _ | _ | _ | _ | _ | _ <;> rfl

theorem list? (hs : i.Shows h) (hx : i.part.objects x) (field : String) :
    (i.heap.object (i.names.objects x)).list? field = ((h.object x).list? field).map i.names.lists := by
  rw [Instance.list?, Instance.get?, hs.fields hx, Table.get?_map, Instance.list?, Instance.get?]
  rcases (h.object x).fields.get? field with _ | _ | _ | _ | _ | _ <;> rfl

theorem id? (hs : i.Shows h) (hx : i.part.objects x) :
    (i.heap.object (i.names.objects x)).id? = (h.object x).id? := by
  rw [Instance.id?, Instance.get?, hs.fields hx, Table.get?_map, Instance.id?, Instance.get?]
  rcases (h.object x).fields.get? Instance.idField with _ | _ | _ | _ | _ | _ <;> rfl

end Shows

/-- A part is seen for as long as it stays. -/
theorem Shows.of_same (hs : i.Shows h)
    (hobject : ∀ {x}, i.part.objects x → h₁.HasObject x ∧ h₁.object x = h.object x)
    (hlist : ∀ {l}, i.part.lists l → h₁.HasList l ∧ h₁.list l = h.list l) : i.Shows h₁ where
  made hx := ⟨(hobject hx).1, (hs.made hx).2⟩
  madeList hl := ⟨(hlist hl).1, (hs.madeList hl).2⟩
  typeName hx := by
    rw [(hobject hx).2]
    exact hs.typeName hx
  fields hx := by
    rw [(hobject hx).2]
    exact hs.fields hx
  list hl := by
    rw [(hlist hl).2]
    exact hs.list hl
  holds hx e he := by
    rw [(hobject hx).2] at he
    exact hs.holds hx e he
  item hl x hx := by
    rw [(hlist hl).2] at hx
    exact hs.item hl x hx

/-! ### Writing fields -/

/-- The image after a step that was taken on both sides. -/
def after (i : Image) (heap : Heap) : Image := { i with heap := heap }

/-- A step that makes nothing and leaves everything outside of the part. -/
theorem Grows.of_same {heap : Heap} (hsize : h₁.objects.size = h.objects.size)
    (hlistsSize : h₁.lists.size = h.lists.size) (hsize' : heap.objects.size = i.heap.objects.size)
    (hlistsSize' : heap.lists.size = i.heap.lists.size)
    (hobject : ∀ {x}, h.HasObject x → ¬i.part.objects x → h₁.object x = h.object x)
    (hlist : ∀ {l}, h.HasList l → ¬i.part.lists l → h₁.list l = h.list l) : i.Grows h (i.after heap) h₁ where
  objects := ⟨fun hx => Nat.lt_of_lt_of_eq hx hsize.symm, fun hx => Nat.lt_of_lt_of_eq hx hsize'.symm, id,
    fun _ => rfl, .inl, fun _ _ => id⟩
  lists := ⟨fun hl => Nat.lt_of_lt_of_eq hl hlistsSize.symm,
    fun hl => Nat.lt_of_lt_of_eq hl hlistsSize'.symm, id, fun _ => rfl, .inl, fun _ _ => id⟩
  object := hobject
  list := hlist
  size := by rw [hsize, ← hsize']; rfl

theorem fields_write (hs : i.Shows h) (ho : i.part.objects o) (hx : i.part.objects x)
    (field : String) (s : Slot) :
    ((i.heap.write (i.names.objects o) field (s.rename i.names)).object (i.names.objects x)).fields =
      ((h.write o field s).object x).fields.map (.rename i.names) := by
  rw [Heap.object_write, Heap.object_write, hs.slot ho]
  simp only [i.names.objects.injective.eq_iff, ne_eq, (Slot.rename_injective i.names).eq_iff]
  split
  · exact (congrArg (Table.insert · field (s.rename i.names)) (hs.fields hx)).trans Table.map_insert.symm
  · exact hs.fields hx

theorem Shows.write (hs : i.Shows h) (ho : i.part.objects o) {s : Slot}
    (hslot : i.part.Holds s) (field : String) :
    (i.after (i.heap.write (i.names.objects o) field (s.rename i.names))).Shows (h.write o field s) where
  made {x} hx := by
    rw [Heap.HasObject, Heap.size_write (hs.made ho).1, Heap.HasObject]
    exact ⟨(hs.made hx).1, (Heap.size_write (hs.made ho).2 field _).symm ▸ (hs.made hx).2⟩
  madeList {l} hl := by
    rw [Heap.HasList, Heap.listsSize_write]
    exact ⟨(hs.madeList hl).1, Nat.lt_of_lt_of_eq (hs.madeList hl).2 (Heap.listsSize_write ..).symm⟩
  typeName hx := by
    rw [Heap.typeName_write]
    exact (Heap.typeName_write ..).trans (hs.typeName hx)
  fields hx := fields_write hs ho hx field s
  list hl := by
    rw [Heap.list_write]
    exact (Heap.list_write ..).trans (hs.list hl)
  holds {x} hx e he := by
    rw [Heap.object_write] at he
    split at he
    · rcases Table.mem_insertEntry he with rfl | he
      · exact hslot
      · exact hs.holds hx e he
    · exact hs.holds hx e he
  item hl x hx := by
    rw [Heap.list_write] at hx
    exact hs.item hl x hx

theorem Shows.grows_write (hs : i.Shows h) (ho : i.part.objects o) (field : String) (s : Slot) :
    i.Grows h (i.after (i.heap.write (i.names.objects o) field (s.rename i.names))) (h.write o field s) := by
  refine .of_same (Heap.size_write (hs.made ho).1 field s) (Heap.listsSize_write ..)
    (Heap.size_write (hs.made ho).2 field _) (Heap.listsSize_write ..) (fun {x} _ hnot => ?_)
    fun _ _ => Heap.list_write ..
  refine Heap.object_write_of_ne ?_ field s
  rintro rfl
  exact hnot ho

/-! ### New objects and lists -/

/-- Other names for what is not in the part. -/
theorem Shows.rename (hs : i.Shows h) {ρ : Renaming}
    (hobjects : ∀ {x}, i.part.objects x → ρ.objects x = i.names.objects x)
    (hlists : ∀ {l}, i.part.lists l → ρ.lists l = i.names.lists l) : { i with names := ρ }.Shows h where
  made {x} hx := by
    rw [hobjects hx]
    exact hs.made hx
  madeList {l} hl := by
    rw [hlists hl]
    exact hs.madeList hl
  typeName {x} hx := by
    rw [hobjects hx]
    exact hs.typeName hx
  fields {x} hx := by
    rw [hobjects hx, hs.fields hx]
    exact Table.map_congr fun e he => ((hs.holds hx e he).rename_eq hobjects hlists).symm
  list {l} hl := by
    rw [hlists hl, hs.list hl, ObjectList.rename, ObjectList.rename, ObjectList.mk.injEq]
    exact ⟨rfl, rfl, List.map_congr_left fun x hx => (hobjects (hs.item hl x hx)).symm⟩
  holds := hs.holds
  item := hs.item

/-- The image with a new object on both sides. -/
def newObject (i : Image) (h : Heap) (typeName : String) : Image where
  part := ⟨((i.objects h).add h.nextObject i.heap.nextObject).part, i.part.lists⟩
  names := ⟨((i.objects h).add h.nextObject i.heap.nextObject).names, i.names.lists⟩
  heap := (i.heap.newObject typeName).2

/-- The image with a new list on both sides. -/
def newList (i : Image) (h : Heap) (elementType : String) (keyed : Bool) : Image where
  part := ⟨i.part.objects, ((i.lists h).add h.nextList i.heap.nextList).part⟩
  names := ⟨i.names.objects, ((i.lists h).add h.nextList i.heap.nextList).names⟩
  heap := (i.heap.newList elementType keyed).2

theorem names_newObject (i : Image) (h : Heap) (typeName : String) :
    (i.newObject h typeName).names.objects h.nextObject = i.heap.nextObject := Matching.names_add_self ..

theorem names_newList (i : Image) (h : Heap) (elementType : String) (keyed : Bool) :
    (i.newList h elementType keyed).names.lists h.nextList = i.heap.nextList := Matching.names_add_self ..

theorem hasObject_newObject (h : Heap) (typeName : String) (x : ObjectId) :
    (h.newObject typeName).2.HasObject x ↔ h.HasObject x ∨ x = h.nextObject := by
  rw [Heap.HasObject, Heap.size_newObject, Nat.lt_succ_iff_lt_or_eq, ← ObjectId.number_inj]
  rfl

theorem hasList_newList (h : Heap) (elementType : String) (keyed : Bool) (l : ListId) :
    (h.newList elementType keyed).2.HasList l ↔ h.HasList l ∨ l = h.nextList := by
  rw [Heap.HasList, Heap.listsSize_newList, Nat.lt_succ_iff_lt_or_eq, ← ListId.number_inj]
  rfl

theorem Shows.extends_newObject (hs : i.Shows h) :
    (i.objects h).Extends ((i.objects h).add h.nextObject i.heap.nextObject) :=
  Matching.extends_add h.not_hasObject_nextObject i.heap.not_hasObject_nextObject hs.made

theorem Shows.extends_newList (hs : i.Shows h) :
    (i.lists h).Extends ((i.lists h).add h.nextList i.heap.nextList) :=
  Matching.extends_add h.not_hasList_nextList i.heap.not_hasList_nextList hs.madeList

theorem Shows.newObject (hs : i.Shows h) (typeName : String) :
    (i.newObject h typeName).Shows (h.newObject typeName).2 := by
  have hagree : ∀ {x}, i.part.objects x → (i.newObject h typeName).names.objects x = i.names.objects x :=
    hs.extends_newObject.agree
  have hnew := i.names_newObject h typeName
  have hold : { i with names := (i.newObject h typeName).names }.Shows h := hs.rename hagree fun _ => rfl
  have hne : ∀ {x}, h.HasObject x → x ≠ h.nextObject := fun hx heq => h.not_hasObject_nextObject (heq ▸ hx)
  have hne' : ∀ {x}, i.heap.HasObject x → x ≠ i.heap.nextObject := fun hx heq =>
    i.heap.not_hasObject_nextObject (heq ▸ hx)
  -- what was seen before is seen as before, and what is new has no fields
  have hobject : ∀ {x}, i.part.objects x → (h.newObject typeName).2.object x = h.object x ∧
      (i.newObject h typeName).heap.object ((i.newObject h typeName).names.objects x) =
        i.heap.object ((i.newObject h typeName).names.objects x) := fun hx =>
    ⟨Heap.object_newObject_of_hasObject typeName (hold.made hx).1,
      Heap.object_newObject_of_hasObject typeName (hold.made hx).2⟩
  have hblank : (h.newObject typeName).2.object h.nextObject = ⟨typeName, .empty, none⟩ ∧
      (i.newObject h typeName).heap.object ((i.newObject h typeName).names.objects h.nextObject) =
        ⟨typeName, .empty, none⟩ := by
    rw [hnew]
    exact ⟨by rw [Heap.object_newObject, if_pos rfl], (Heap.object_newObject ..).trans (if_pos rfl)⟩
  refine ⟨?_, hold.madeList, ?_, ?_, hold.list, ?_, fun hl x hx => .inl (hold.item hl x hx)⟩
  · rintro x (hx | rfl)
    · exact ⟨(hasObject_newObject ..).2 (.inl (hold.made hx).1),
        (hasObject_newObject ..).2 (.inl (hold.made hx).2)⟩
    · rw [hnew]
      exact ⟨(hasObject_newObject ..).2 (.inr rfl), (hasObject_newObject ..).2 (.inr rfl)⟩
  · rintro x (hx | rfl)
    · rw [(hobject hx).1, (hobject hx).2]
      exact hold.typeName hx
    · rw [hblank.1, hblank.2]
  · rintro x (hx | rfl)
    · rw [(hobject hx).1, (hobject hx).2]
      exact hold.fields hx
    · rw [hblank.1, hblank.2]
      rfl
  · rintro x (hx | rfl) e he
    · rw [(hobject hx).1] at he
      have hin := hold.holds hx e he
      cases hslot : e.2 <;> rw [hslot] at hin <;> first | trivial | exact .inl hin
    · rw [hblank.1] at he
      exact absurd he List.not_mem_nil

theorem Shows.grows_newObject (hs : i.Shows h) (typeName : String) :
    i.Grows h (i.newObject h typeName) (h.newObject typeName).2 where
  objects :=
    have he := hs.extends_newObject
    ⟨fun hx => (hasObject_newObject ..).2 (.inl hx), fun hx => (hasObject_newObject ..).2 (.inl hx), he.part,
      he.agree, he.fresh, he.fixed⟩
  lists := .refl _
  object hx _ := Heap.object_newObject_of_hasObject typeName hx
  list _ _ := rfl
  size := by
    rw [Heap.size_newObject, Image.newObject, Heap.size_newObject]
    omega

theorem Shows.newList (hs : i.Shows h) (elementType : String) (keyed : Bool) :
    (i.newList h elementType keyed).Shows (h.newList elementType keyed).2 := by
  have hagree : ∀ {l}, i.part.lists l → (i.newList h elementType keyed).names.lists l = i.names.lists l :=
    hs.extends_newList.agree
  have hnew := i.names_newList h elementType keyed
  have hold : { i with names := (i.newList h elementType keyed).names }.Shows h :=
    hs.rename (fun _ => rfl) hagree
  have hlist : ∀ {l}, i.part.lists l → (h.newList elementType keyed).2.list l = h.list l ∧
      (i.newList h elementType keyed).heap.list ((i.newList h elementType keyed).names.lists l) =
        i.heap.list ((i.newList h elementType keyed).names.lists l) := fun hl =>
    ⟨Heap.list_newList_of_hasList elementType keyed (hold.madeList hl).1,
      Heap.list_newList_of_hasList elementType keyed (hold.madeList hl).2⟩
  have hblank : (h.newList elementType keyed).2.list h.nextList = ⟨elementType, keyed, []⟩ ∧
      (i.newList h elementType keyed).heap.list ((i.newList h elementType keyed).names.lists h.nextList) =
        ⟨elementType, keyed, []⟩ := by
    rw [hnew]
    exact ⟨by rw [Heap.list_newList, if_pos rfl], (Heap.list_newList ..).trans (if_pos rfl)⟩
  refine ⟨hold.made, ?_, hold.typeName, hold.fields, ?_, fun {x} hx e he => ?_, ?_⟩
  · rintro l (hl | rfl)
    · exact ⟨(hasList_newList ..).2 (.inl (hold.madeList hl).1),
        (hasList_newList ..).2 (.inl (hold.madeList hl).2)⟩
    · rw [hnew]
      exact ⟨(hasList_newList ..).2 (.inr rfl), (hasList_newList ..).2 (.inr rfl)⟩
  · rintro l (hl | rfl)
    · rw [(hlist hl).1, (hlist hl).2]
      exact hold.list hl
    · rw [hblank.1, hblank.2]
      rfl
  · have hin := hold.holds hx e he
    cases hslot : e.2 <;> rw [hslot] at hin <;> first | trivial | exact .inl hin
  · rintro l (hl | rfl) x hx
    · rw [(hlist hl).1] at hx
      exact hold.item hl x hx
    · rw [hblank.1] at hx
      exact absurd hx List.not_mem_nil

theorem Shows.grows_newList (hs : i.Shows h) (elementType : String) (keyed : Bool) :
    i.Grows h (i.newList h elementType keyed) (h.newList elementType keyed).2 where
  objects := .refl _
  lists :=
    have he := hs.extends_newList
    ⟨fun hl => (hasList_newList ..).2 (.inl hl), fun hl => (hasList_newList ..).2 (.inl hl), he.part,
      he.agree, he.fresh, he.fixed⟩
  object _ _ := rfl
  list hl _ := Heap.list_newList_of_hasList elementType keyed hl
  size := rfl

/-! ### Contents of lists -/

theorem Shows.items (hs : i.Shows h) (hl : i.part.lists l) :
    (i.heap.list (i.names.lists l)).items = (h.list l).items.map i.names.objects := by
  rw [hs.list hl]
  rfl

theorem Shows.reordering (hs : i.Shows h) (hl : i.part.lists l) (items : List ObjectId) :
    (i.heap.setItems (i.names.lists l) (items.map i.names.objects)).1 =
      (h.setItems l items).1.map i.names.objects := by
  change reorder _ _ = _
  rw [hs.items hl, reorder_map i.names.objects.injective]
  rfl

theorem Shows.setItems (hs : i.Shows h) (hl : i.part.lists l) {items : List ObjectId}
    (hitems : ∀ x ∈ items, i.part.objects x) :
    (i.after (i.heap.setItems (i.names.lists l) (items.map i.names.objects)).2).Shows
      (h.setItems l items).2 where
  made {x} hx := by
    rw [Heap.HasObject, Heap.size_setItems (fun y hy => (hs.made (hs.item hl y hy)).1)
      fun y hy => (hs.made (hitems y hy)).1]
    refine ⟨(hs.made hx).1, Nat.lt_of_lt_of_eq (hs.made hx).2 (Heap.size_setItems ?_ ?_).symm⟩
    · rw [hs.items hl]
      exact List.forall_mem_map.2 fun y hy => (hs.made (hs.item hl y hy)).2
    · exact List.forall_mem_map.2 fun y hy => (hs.made (hitems y hy)).2
  madeList {k} hk := by
    rw [Heap.HasList, Heap.listsSize_setItems (hs.madeList hl).1]
    exact ⟨(hs.madeList hk).1, Nat.lt_of_lt_of_eq (hs.madeList hk).2
      (Heap.listsSize_setItems (hs.madeList hl).2 _).symm⟩
  typeName hx := by
    rw [Heap.typeName_setItems]
    exact (Heap.typeName_setItems ..).trans (hs.typeName hx)
  fields hx := by
    rw [Heap.fields_setItems]
    exact (Heap.fields_setItems ..).trans (hs.fields hx)
  list {k} hk := by
    refine (Heap.list_setItems ..).trans ?_
    rw [Heap.list_setItems]
    simp only [after, i.names.lists.injective.eq_iff, hs.list hk]
    split <;> rfl
  holds hx e he := by
    rw [Heap.fields_setItems] at he
    exact hs.holds hx e he
  item {k} hk x hx := by
    rw [Heap.list_setItems] at hx
    split at hx
    · exact hitems x hx
    · exact hs.item hk x hx

theorem Shows.grows_setItems (hs : i.Shows h) (hl : i.part.lists l) {items : List ObjectId}
    (hitems : ∀ x ∈ items, i.part.objects x) :
    i.Grows h (i.after (i.heap.setItems (i.names.lists l) (items.map i.names.objects)).2)
      (h.setItems l items).2 := by
  refine .of_same (Heap.size_setItems (fun y hy => (hs.made (hs.item hl y hy)).1)
    fun y hy => (hs.made (hitems y hy)).1) (Heap.listsSize_setItems (hs.madeList hl).1 items)
    (Heap.size_setItems ?_ ?_) (Heap.listsSize_setItems (hs.madeList hl).2 _) (fun {x} _ hnot => ?_)
    fun {k} _ hnot => ?_
  · rw [hs.items hl]
    exact List.forall_mem_map.2 fun y hy => (hs.made (hs.item hl y hy)).2
  · exact List.forall_mem_map.2 fun y hy => (hs.made (hitems y hy)).2
  · rw [Heap.object_setItems, if_neg fun hin => hnot (hitems x hin),
      if_neg fun hand => hnot (hs.item hl x hand.1)]
  · rw [Heap.list_setItems, if_neg]
    rintro rfl
    exact hnot hl

/-! ### What data is about -/

theorem filter_map_names {c : Option ObjectId} {P P' : ObjectId → Bool}
    (hagree : ∀ x, c = some x → P' (i.names.objects x) = P x) :
    (c.map i.names.objects).filter P' = (c.filter P).map i.names.objects := by
  cases c with
  | none => rfl
  | some x =>
      rw [Option.map_some, Option.filter_some, Option.filter_some, hagree x rfl]
      cases P x <;> rfl

theorem Shows.kept? (hs : i.Shows h) (ho : i.part.objects o) (field concrete : String) (data : Json) :
    i.heap.kept? (i.names.objects o) field concrete data =
      (h.kept? o field concrete data).map i.names.objects := by
  rw [Heap.kept?, hs.object? ho]
  refine filter_map_names fun x hobject => ?_
  have hin := hs.holds_slot ho field
  rw [Heap.object?_eq_some.1 hobject] at hin
  simp only [hs.typeName hin, sameIdentity, hs.id? hin]

theorem Shows.holds_kept (hs : i.Shows h) (ho : i.part.objects o) {field concrete : String} {data : Json}
    (hkept : h.kept? o field concrete data = some x) : i.part.objects x := by
  have hin := hs.holds_slot ho field
  rwa [(Heap.slot_of_kept hkept).1] at hin

theorem Shows.elementIds (hs : i.Shows h) {list : ObjectList} (hitems : ∀ x ∈ list.items, i.part.objects x) :
    elementIds i.heap (list.rename i.names) = renameIds i.names (Live.elementIds h list) := by
  rw [Live.elementIds, Live.elementIds]
  change (if list.keyed then _ else _) = _
  split
  · rw [renameIds, List.map_filterMap, ObjectList.rename, List.filterMap_map]
    apply List.filterMap_congr
    intro x hx
    rw [Function.comp_apply, hs.id? (hitems x hx), Option.map_map]
    rfl
  · rfl

theorem Shows.matchElement (hs : i.Shows h) {list : ObjectList} (hitems : ∀ x ∈ list.items, i.part.objects x)
    {byId : List (String × ObjectId)} (hbyId : ∀ e ∈ byId, i.part.objects e.2) (position : Nat)
    (concrete : String) (data : Json) :
    matchElement i.heap (list.rename i.names) (renameIds i.names byId) position concrete data =
      (Live.matchElement h list byId position concrete data).map i.names.objects := by
  have hat : (list.rename i.names).items[position]? = list.items[position]?.map i.names.objects :=
    List.getElem?_map ..
  have hin : ∀ {x}, list.items[position]? = some x → i.part.objects x := fun hx =>
    hitems _ (List.mem_of_getElem? hx)
  rw [Live.matchElement, Live.matchElement]
  change Option.filter _ (if list.keyed then _ else _) = _
  by_cases hkeyed : list.keyed = true
  · rw [if_pos hkeyed, if_pos hkeyed]
    cases hid : wireId? data with
    | some id =>
        dsimp only
        rw [lookup_renameIds]
        exact filter_map_names fun x hlookup => by rw [hs.typeName (hbyId _ (mem_of_lookup hlookup))]
    | none =>
        dsimp only
        rw [hat, filter_map_names fun x hx => by rw [hs.id? (hin hx)]]
        exact filter_map_names fun x hx => by rw [hs.typeName (hin (Option.filter_eq_some_iff.1 hx).1)]
  · rw [if_neg hkeyed, if_neg hkeyed, hat]
    exact filter_map_names fun x hx => by rw [hs.typeName (hin hx)]

/-- The element for an entry is seen as the element for it there. -/
theorem Shows.pick (hs : i.Shows h) {list : ObjectList} (hitems : ∀ x ∈ list.items, i.part.objects x)
    {byId : List (String × ObjectId)} (hbyId : ∀ e ∈ byId, i.part.objects e.2) (position : Nat)
    (concrete : String) (data : Json) :
    ∃ i₁ : Image, i₁.Shows (pick h list byId position concrete data).2 ∧
      i.Grows h i₁ (pick h list byId position concrete data).2 ∧
      i₁.part.objects (pick h list byId position concrete data).1 ∧
      pick i.heap (list.rename i.names) (renameIds i.names byId) position concrete data =
        (i₁.names.objects (pick h list byId position concrete data).1, i₁.heap) := by
  have hmatch := hs.matchElement hitems hbyId position concrete data
  cases hfound : Live.matchElement h list byId position concrete data with
  | some x =>
      rw [hfound] at hmatch
      rw [pick_of_match hfound, pick_of_match hmatch]
      refine ⟨i, hs, .refl i h, ?_, rfl⟩
      rcases (matchElement_eq_some hfound).2 with ⟨-, id, -, hlookup⟩ | ⟨hat, -⟩
      · exact hbyId _ (mem_of_lookup hlookup)
      · exact hitems _ (List.mem_of_getElem? hat)
  | none =>
      rw [hfound] at hmatch
      rw [pick_of_no_match hfound, pick_of_no_match hmatch]
      refine ⟨i.newObject h concrete, hs.newObject concrete, hs.grows_newObject concrete, .inr rfl, ?_⟩
      exact Prod.ext (i.names_newObject h concrete).symm rfl

/-! ### Trees -/

theorem Shows.treeWithin (hs : i.Shows h) (hx : i.part.objects x) (depth : Nat) :
    i.heap.treeWithin depth (i.names.objects x) = h.treeWithin depth x := by
  induction depth generalizing x with
  | zero => rw [Heap.treeWithin, Heap.treeWithin, hs.typeName hx]
  | succ depth ih =>
      rw [Heap.treeWithin, Heap.treeWithin, hs.typeName hx, hs.fields hx, Table.map_map]
      congr 1
      apply Table.map_congr
      intro e he
      have hin := hs.holds hx e he
      cases hslot : e.2 <;> rw [hslot] at hin
      case object y => exact ih hin
      case list l =>
        rw [Slot.rename, Heap.slotTree, Heap.slotTree, hs.items hin, List.map_map]
        exact congrArg Snapshot.list (List.map_congr_left fun y hy => ih (hs.item hin y hy))
      all_goals rfl

end Image

end GraphClient.Live
