import GraphClient.Proofs.Live.Writing
import GraphClient.Proofs.Table
import Mathlib.Logic.Relation

/-! What writing leaves alone. Objects and lists stay with their types, and a reference to an old one
stands where it stood before: writing puts only new objects and new lists into fields and lists. So
whatever a goal may touch is told by the heap before it, as the fields of its own objects and of all
objects below them. -/

namespace GraphClient.Live

/-- A slot that refers to nothing. -/
def Slot.Plain : Slot → Prop
  | .object _ | .list _ => False
  | _ => True

theorem plain_leafSlot (leaf : Leaf) (nullable : Bool) (data : Json) :
    (leafSlot leaf nullable data).Plain := by
  unfold leafSlot
  split
  · split <;> trivial
  · trivial

theorem plain_of_demand {graph : TypeGraph} {typeName : String} {field : FieldPlan}
    {data : Json} {slot : Slot}
    (hdemand : demand graph typeName field data = .store slot) : slot.Plain := by
  have hasks := demands graph typeName field data
  rw [hdemand] at hasks
  cases hasks with
  | leaf data _ => exact plain_leafSlot _ _ data
  | noLeaves => split <;> trivial
  | leaves | null => trivial

namespace Heap

variable {h h₁ h₂ : Heap}

/-- That a heap comes later than another one: objects and lists stay with their types, and references
to old ones stand where they stood. -/
structure Evolves (h h' : Heap) : Prop where
  objects : ∀ {x}, h.HasObject x → h'.HasObject x
  lists : ∀ {l}, h.HasList l → h'.HasList l
  typeName : ∀ {x}, h.HasObject x → (h'.object x).typeName = (h.object x).typeName
  listType : ∀ {l}, h.HasList l →
    (h'.list l).elementType = (h.list l).elementType ∧ (h'.list l).keyed = (h.list l).keyed
  slotObject : ∀ {o field x}, h.HasObject x → h'.slot o field = .object x → h.slot o field = .object x
  slotList : ∀ {o field l}, h.HasList l → h'.slot o field = .list l → h.slot o field = .list l
  item : ∀ {l x}, h.HasObject x → x ∈ (h'.list l).items → x ∈ (h.list l).items

namespace Evolves

theorem refl (h : Heap) : h.Evolves h :=
  ⟨id, id, fun _ => rfl, fun _ => ⟨rfl, rfl⟩, fun _ => id, fun _ => id, fun _ => id⟩

theorem trans (hfirst : h.Evolves h₁) (hsecond : h₁.Evolves h₂) : h.Evolves h₂ where
  objects hx := hsecond.objects (hfirst.objects hx)
  lists hl := hsecond.lists (hfirst.lists hl)
  typeName hx := (hsecond.typeName (hfirst.objects hx)).trans (hfirst.typeName hx)
  listType hl := by
    obtain ⟨helement, hkeyed⟩ := hsecond.listType (hfirst.lists hl)
    exact ⟨helement.trans (hfirst.listType hl).1, hkeyed.trans (hfirst.listType hl).2⟩
  slotObject hx hs := hfirst.slotObject hx (hsecond.slotObject (hfirst.objects hx) hs)
  slotList hl hs := hfirst.slotList hl (hsecond.slotList (hfirst.lists hl) hs)
  item hx hitem := hfirst.item hx (hsecond.item (hfirst.objects hx) hitem)

theorem newObject (h : Heap) (typeName : String) : h.Evolves (h.newObject typeName).2 where
  objects hx := by
    rw [HasObject, size_newObject]
    exact Nat.lt_succ_of_lt hx
  lists := id
  typeName hx := by rw [object_newObject_of_hasObject typeName hx]
  listType _ := ⟨rfl, rfl⟩
  slotObject _ hs := by rwa [slot_newObject] at hs
  slotList _ hs := by rwa [slot_newObject] at hs
  item _ := id

theorem newList (h : Heap) (elementType : String) (keyed : Bool) :
    h.Evolves (h.newList elementType keyed).2 where
  objects := id
  lists hl := by
    rw [HasList, listsSize_newList]
    exact Nat.lt_succ_of_lt hl
  typeName _ := rfl
  listType hl := by
    rw [list_newList_of_hasList elementType keyed hl]
    exact ⟨rfl, rfl⟩
  slotObject _ := id
  slotList _ := id
  item _ hitem := by rwa [items_newList] at hitem

/-- Writing a slot that does not refer to anything old. -/
theorem write {o : ObjectId} {field : String} {s : Slot} (hobject : ∀ x, s = .object x → ¬h.HasObject x)
    (hlist : ∀ l, s = .list l → ¬h.HasList l) (hlater : h.Evolves h₁) : h.Evolves (h₁.write o field s) where
  objects hx := Nat.lt_of_lt_of_le (hlater.objects hx) (size_le_write h₁ o field s)
  lists hl := by
    rw [HasList, listsSize_write]
    exact hlater.lists hl
  typeName hx := by rw [typeName_write, hlater.typeName hx]
  listType hl := by rw [list_write]; exact hlater.listType hl
  slotObject hx hs := by
    rw [slot_write] at hs
    split at hs
    · exact absurd hx (hobject _ hs)
    · exact hlater.slotObject hx hs
  slotList hl hs := by
    rw [slot_write] at hs
    split at hs
    · exact absurd hl (hlist _ hs)
    · exact hlater.slotList hl hs
  item hx hitem := by
    rw [list_write] at hitem
    exact hlater.item hx hitem

theorem write_plain {s : Slot} (hplain : s.Plain) (o : ObjectId) (field : String) :
    h.Evolves (h.write o field s) :=
  write (fun _ hs => by subst hs; exact hplain.elim) (fun _ hs => by subst hs; exact hplain.elim) (refl h)

theorem withObject (h : Heap) (o : ObjectId) (field typeName : String) :
    h.Evolves (h.withObject o field typeName) := by
  refine write (fun x hs => ?_) (fun l hs => by cases hs) (newObject h typeName)
  cases hs
  exact h.not_hasObject_nextObject

theorem withList (h : Heap) (o : ObjectId) (field elementType : String) (keyed : Bool) :
    h.Evolves (h.withList o field elementType keyed) := by
  refine write (fun x hs => by cases hs) (fun l hs => ?_) (newList h elementType keyed)
  cases hs
  exact h.not_hasList_nextList

/-- Giving a list contents whose old objects are in it. -/
theorem setItems {l : ListId} {items : List ObjectId} (hlater : h.Evolves h₁)
    (hitems : ∀ x ∈ items, h.HasObject x → x ∈ (h.list l).items) : h.Evolves (h₁.setItems l items).2 where
  objects hx := Nat.lt_of_lt_of_le (hlater.objects hx) (size_le_setItems h₁ l items)
  lists hl := Nat.lt_of_lt_of_le (hlater.lists hl) (listsSize_le_setItems h₁ l items)
  typeName hx := by rw [typeName_setItems, hlater.typeName hx]
  listType hk := by
    rw [list_setItems]
    split <;> exact hlater.listType hk
  slotObject hx hs := by
    rw [slot_setItems] at hs
    exact hlater.slotObject hx hs
  slotList hl hs := by
    rw [slot_setItems] at hs
    exact hlater.slotList hl hs
  item {k x} hx hitem := by
    rw [list_setItems] at hitem
    split at hitem
    · rename_i hk
      subst hk
      exact hitems x hitem hx
    · exact hlater.item hx hitem

end Evolves

end Heap

theorem mem_of_lookup {β : Type} {key : String} {value : β} {entries : List (String × β)}
    (hlookup : entries.lookup key = some value) : (key, value) ∈ entries :=
  @Table.mem_of_get? β ⟨entries⟩ key value hlookup

theorem mem_of_elementIds {h : Heap} {list : ObjectList} {id : String} {x : ObjectId}
    (hmem : (id, x) ∈ elementIds h list) :
    list.keyed = true ∧ x ∈ list.items ∧ (h.object x).id? = some id := by
  unfold elementIds at hmem
  split at hmem
  · rename_i hkeyed
    obtain ⟨y, hy, heq⟩ := List.mem_filterMap.1 hmem
    cases hid : (h.object y).id? with
    | none =>
        rw [hid] at heq
        cases heq
    | some s =>
        rw [hid] at heq
        cases heq
        exact ⟨hkeyed, hy, hid⟩
  · exact absurd hmem List.not_mem_nil

theorem mem_of_afterEntry {data : Json} {byId : List (String × ObjectId)} {e : String × ObjectId}
    (hmem : e ∈ afterEntry data byId) : e ∈ byId := by
  unfold afterEntry at hmem
  split at hmem
  · exact (List.mem_filter.1 hmem).1
  · exact hmem

/-- An element that is matched stands in the list, by its id or by its position. -/
theorem matchElement_eq_some {h : Heap} {list : ObjectList} {byId : List (String × ObjectId)}
    {position : Nat} {concrete : String} {data : Json} {x : ObjectId}
    (hmatch : matchElement h list byId position concrete data = some x) :
    (h.object x).typeName = concrete ∧
      ((list.keyed = true ∧ ∃ id, wireId? data = some id ∧ byId.lookup id = some x) ∨
        (list.items[position]? = some x ∧
          (list.keyed = true → wireId? data = none ∧ (h.object x).id? = none))) := by
  rw [matchElement, Option.filter_eq_some_iff] at hmatch
  obtain ⟨hcandidate, htype⟩ := hmatch
  refine ⟨of_decide_eq_true htype, ?_⟩
  by_cases hkeyed : list.keyed = true
  · rw [if_pos hkeyed] at hcandidate
    cases hid : wireId? data with
    | some id =>
        rw [hid] at hcandidate
        exact .inl ⟨hkeyed, id, rfl, hcandidate⟩
    | none =>
        rw [hid] at hcandidate
        obtain ⟨hat, hnone⟩ := Option.filter_eq_some_iff.1 hcandidate
        exact .inr ⟨hat, fun _ => ⟨rfl, Option.isNone_iff_eq_none.1 hnone⟩⟩
  · rw [if_neg hkeyed] at hcandidate
    exact .inr ⟨hcandidate, fun hk => absurd hk hkeyed⟩

theorem pick_of_match {h : Heap} {list : ObjectList} {byId : List (String × ObjectId)} {position : Nat}
    {concrete : String} {data : Json} {x : ObjectId}
    (hmatch : matchElement h list byId position concrete data = some x) :
    pick h list byId position concrete data = (x, h) := by
  rw [pick, hmatch]

theorem pick_of_no_match {h : Heap} {list : ObjectList} {byId : List (String × ObjectId)} {position : Nat}
    {concrete : String} {data : Json} (hmatch : matchElement h list byId position concrete data = none) :
    pick h list byId position concrete data = (h.nextObject, (h.newObject concrete).2) := by
  rw [pick, hmatch]
  rfl

theorem object_pick {h : Heap} {x : ObjectId} (hx : h.HasObject x) (list : ObjectList)
    (byId : List (String × ObjectId)) (position : Nat) (concrete : String) (data : Json) :
    (pick h list byId position concrete data).2.object x = h.object x := by
  cases hmatch : matchElement h list byId position concrete data with
  | some y => rw [pick_of_match hmatch]
  | none =>
      rw [pick_of_no_match hmatch]
      exact Heap.object_newObject_of_hasObject concrete hx

theorem evolves_pick (h : Heap) (list : ObjectList) (byId : List (String × ObjectId)) (position : Nat)
    (concrete : String) (data : Json) : h.Evolves (pick h list byId position concrete data).2 := by
  cases hmatch : matchElement h list byId position concrete data with
  | some x =>
      rw [pick_of_match hmatch]
      exact .refl h
  | none =>
      rw [pick_of_no_match hmatch]
      exact .newObject h concrete

/-- The old objects among targets are elements. -/
def Targets (h : Heap) (list : ObjectList) (byId : List (String × ObjectId)) (targets : List ObjectId) :
    Prop :=
  ∀ x ∈ targets, h.HasObject x → x ∈ list.items ∨ ∃ id, (id, x) ∈ byId

theorem targets_pick (h : Heap) (list : ObjectList) (byId : List (String × ObjectId)) (position : Nat)
    (concrete : String) (data : Json) :
    Targets h list byId [(pick h list byId position concrete data).1] := by
  intro x hx hold
  rw [List.mem_singleton] at hx
  cases hmatch : matchElement h list byId position concrete data with
  | some y =>
      rw [pick_of_match hmatch] at hx
      subst hx
      rcases (matchElement_eq_some hmatch).2 with ⟨-, id, -, hlookup⟩ | ⟨hat, -⟩
      · exact .inr ⟨id, mem_of_lookup hlookup⟩
      · exact .inl (List.mem_of_getElem? hat)
  | none =>
      rw [pick_of_no_match hmatch] at hx
      subst hx
      exact absurd hold h.not_hasObject_nextObject

/-- What a goal gives beyond a later heap: the elements that are placed were written. -/
def Goal.Picks (h : Heap) : Goal → Prop
  | .entries elements _ byId _ targets placed =>
      Targets h elements byId targets ∧ placed.items.Sublist targets
  | .object .. | .fields .. | .field .. | .list .. => True

theorem Writes.evolves_picks {plans : Plans} {h h' : Heap} {g : Goal} {q : List Notification}
    (hw : Writes plans h g h' q) : h.Evolves h' ∧ g.Picks h := by
  induction hw with
  | @halt h g hhalt =>
      refine ⟨.refl h, ?_⟩
      cases hhalt <;> first | trivial | exact ⟨fun x hx => absurd hx List.not_mem_nil, .slnil⟩
  | object hplan hfields ih => exact ⟨ih.1, trivial⟩
  | skip hget hrest ih => exact ⟨ih.1, trivial⟩
  | stop hget hfield ih => exact ⟨ih.1, trivial⟩
  | next hget hfield hrest ihfield ihrest => exact ⟨ihfield.1.trans ihrest.1, trivial⟩
  | store hdemand => exact ⟨.write_plain (plain_of_demand hdemand) _ _, trivial⟩
  | keep hdemand hkept hinner ih => exact ⟨ih.1, trivial⟩
  | replace hdemand hkept hinner ih => exact ⟨(Heap.Evolves.withObject _ _ _ _).trans ih.1, trivial⟩
  | reuse hdemand hlist hinner ih => exact ⟨ih.1, trivial⟩
  | attach hdemand hlist hinner ih => exact ⟨(Heap.Evolves.withList _ _ _ _ _).trans ih.1, trivial⟩
  | stopEntry hconcrete hentry ih =>
      exact ⟨(evolves_pick _ _ _ _ _ _).trans ih.1, targets_pick _ _ _ _ _ _, List.nil_sublist _⟩
  | @nextEntry h h₁ h₂ list position byId concrete data rest changes targets placed q₁ q₂ hconcrete hentry
      hrest ihentry ihrest =>
      have hfirst := (evolves_pick h list byId position concrete data).trans ihentry.1
      refine ⟨hfirst.trans ihrest.1, fun x hx hold => ?_, ihrest.2.2.cons_cons _⟩
      rcases List.mem_cons.1 hx with rfl | hx
      · exact targets_pick h list byId position concrete data _ List.mem_cons_self hold
      · rcases ihrest.2.1 x hx (hfirst.objects hold) with hitem | ⟨id, hid⟩
        · exact .inl hitem
        · exact .inr ⟨id, mem_of_afterEntry hid⟩
  | @list h h' l items targets placed q hentries ih =>
      refine ⟨ih.1.setItems fun x hx hold => ?_, trivial⟩
      have hplaced : x ∈ placed.items → x ∈ (h.list l).items := by
        intro hx
        rcases ih.2.1 x (ih.2.2.subset hx) hold with hitem | ⟨id, hid⟩
        · exact hitem
        · exact (mem_of_elementIds hid).2.1
      unfold Placed.contents at hx
      split at hx
      · exact hplaced hx
      · rcases List.mem_append.1 hx with hx | hx
        · exact hplaced hx
        · exact (List.mem_filter.1 hx).1

theorem Writes.evolves {plans : Plans} {h h' : Heap} {g : Goal} {q : List Notification}
    (hw : Writes plans h g h' q) : h.Evolves h' := hw.evolves_picks.1

/-- The old objects that the entries of a whole list write are elements of it. -/
theorem Writes.target_mem {plans : Plans} {h h' : Heap} {list : ObjectList} {position : Nat}
    {rest : List Json} {targets : List ObjectId} {placed : Placed} {q : List Notification}
    (hw : Writes plans h (.entries list position (elementIds h list) rest targets placed) h' q)
    {c : ObjectId} (hc : c ∈ targets) (hold : h.HasObject c) : c ∈ list.items := by
  rcases hw.evolves_picks.2.1 c hc hold with hitem | ⟨id, hid⟩
  · exact hitem
  · exact (mem_of_elementIds hid).2.1

end GraphClient.Live
