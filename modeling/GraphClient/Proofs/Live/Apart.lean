import GraphClient.Proofs.Live.Invariant

/-! Parts of a goal do not meet. What is below a field or an element stays the same while other fields of
the object or other elements of the list are written, and what a later part touches was there before and
is not touched by an earlier one. -/

namespace GraphClient.Live

variable {plans : Plans}

namespace Heap

/-- That an object and all that it leads to stay as they are. -/
structure Same (h h' : Heap) (c : ObjectId) : Prop where
  typeName : ∀ {x}, h.Below c x → (h'.object x).typeName = (h.object x).typeName
  fields : ∀ {x}, h.Below c x → (h'.object x).fields = (h.object x).fields
  list : ∀ {x name l}, h.Below c x → h.slot x name = .list l → h'.list l = h.list l

variable {h h' : Heap} {c x : ObjectId}

namespace Same

theorem slot (hs : h.Same h' c) (hbelow : h.Below c x) (name : String) : h'.slot x name = h.slot x name := by
  rw [Heap.slot, Heap.slot, Instance.get?, Instance.get?, hs.fields hbelow]

theorem slotObjects (hs : h.Same h' c) (hbelow : h.Below c x) (name : String) :
    h'.slotObjects (h'.slot x name) = h.slotObjects (h.slot x name) := by
  rw [hs.slot hbelow]
  cases hslot : h.slot x name with
  | list l => rw [Heap.slotObjects, Heap.slotObjects, hs.list hbelow hslot]
  | _ => rfl

theorem child (hs : h.Same h' c) (hbelow : h.Below c x) {y : ObjectId} : h'.Child x y ↔ h.Child x y := by
  simp only [Child, hs.slotObjects hbelow]

/-- The same objects are below it. -/
theorem below (hs : h.Same h' c) : h'.Below c x ↔ h.Below c x := by
  constructor <;> intro hbelow
  · induction hbelow with
    | refl => exact .refl
    | tail _ hchild ih => exact .tail ih ((hs.child ih).1 hchild)
  · induction hbelow with
    | refl => exact .refl
    | tail hbelow hchild ih => exact .tail ih ((hs.child hbelow).2 hchild)

/-- It holds of everything below as well. -/
theorem of_below (hs : h.Same h' c) (hbelow : h.Below c x) : h.Same h' x :=
  ⟨fun hx => hs.typeName (.trans hbelow hx), fun hx => hs.fields (.trans hbelow hx),
    fun hx hslot => hs.list (.trans hbelow hx) hslot⟩

end Same

variable {touched : ObjectId → String → Prop} {own : ListId → Prop}

theorem Spares.list_of_slot (hs : h.Spares h' touched own) (ht : h.Tidy) {name : String} {l : ListId}
    (hslot : h.slot x name = .list l) (hnot : ¬touched x name) (hown : ¬own l) : h'.list l = h.list l := by
  refine hs.list (ht.list hslot) hown fun y other htouch hother => hnot ?_
  obtain ⟨rfl, rfl⟩ := ht.listOnce hslot hother
  exact htouch

theorem Spares.slotObjects (hs : h.Spares h' touched own) (ht : h.Tidy) (hx : h.HasObject x) {name : String}
    (hnot : ¬touched x name) (hown : ∀ l, h.slot x name = .list l → ¬own l) :
    h'.slotObjects (h'.slot x name) = h.slotObjects (h.slot x name) := by
  rw [hs.slot hx hnot]
  cases hslot : h.slot x name with
  | list l => rw [Heap.slotObjects, Heap.slotObjects, hs.list_of_slot ht hslot hnot (hown l hslot)]
  | _ => rfl

theorem Spares.same (hs : h.Spares h' touched own) (ht : h.Tidy) (he : h.Evolves h') (hc : h.HasObject c)
    (hnot : ∀ x name, h.Below c x → ¬touched x name)
    (hown : ∀ l, own l → ∀ x name, h.Below c x → h.slot x name ≠ .list l) : h.Same h' c where
  typeName hbelow := he.typeName (ht.hasObject_of_below hc hbelow)
  fields hbelow := hs.fields (ht.hasObject_of_below hc hbelow) fun name => hnot _ name hbelow
  list hbelow hslot := hs.list_of_slot ht hslot (hnot _ _ hbelow) fun hin => hown _ hin _ _ hbelow hslot

/-- What is below a field stays when other fields of the object are written. -/
theorem Spares.same_field {o : ObjectId} {names : List String} {name : String}
    (hs : h.Spares h' (h.Within o names) fun _ => False) (ht : h.Tidy) (he : h.Evolves h')
    (hname : name ∉ names) (hc : c ∈ h.slotObjects (h.slot o name)) : h.Same h' c :=
  hs.same ht he (ht.hasObject_of_child ⟨name, hc⟩)
    (fun _ field hbelow => ht.not_within_of_belowField ⟨c, hc, hbelow⟩ hname field) fun _ => False.elim

/-- What later fields touch was there before the first one was written, and is not touched by it. -/
theorem Spares.within_apart {o : ObjectId} {names later : List String} {field : String}
    (hs : h.Spares h' (h.Within o names) fun _ => False) (ht : h.Tidy) (he : h.Evolves h')
    (ho : h.HasObject o) (hdisjoint : ∀ name ∈ later, name ∉ names) (hin : h'.Within o later x field) :
    h.HasObject x ∧ ¬h.Within o names x field := by
  obtain ⟨other, hother, ⟨rfl, rfl⟩ | ⟨c, hc, hbelow⟩⟩ := hin
  · exact ⟨ho, ht.not_within (hdisjoint _ hother)⟩
  · rw [hs.slotObjects ht ho (ht.not_within (hdisjoint other hother)) fun _ _ => id] at hc
    rw [(hs.same_field ht he (hdisjoint other hother) hc).below] at hbelow
    exact ⟨ht.hasObject_of_below (ht.hasObject_of_child ⟨other, hc⟩) hbelow,
      ht.not_within_of_belowField ⟨c, hc, hbelow⟩ (hdisjoint other hother) field⟩

/-- An element stays while another one is written. -/
theorem Spares.same_item {l : ListId} {y : ObjectId}
    (hs : h.Spares h' (fun x _ => h.Below c x) fun _ => False)
    (ht : h.Tidy) (he : h.Evolves h') (hc : h.HasObject c → c ∈ (h.list l).items)
    (hy : y ∈ (h.list l).items) (hne : y ≠ c) : h.Same h' y := by
  refine hs.same ht he (ht.item hy) (fun x _ hyx hcx => hne ?_) fun _ => False.elim
  have hmade := Heap.hasObject_of_below (ht.hasObject_of_below (ht.item hy) hyx) hcx
  exact ht.item_unique hy (hc hmade) hyx hcx

end Heap

/-- The fields after the first one. -/
theorem Writes.apart_next (hd : plans.Distinct) {h h₁ : Heap} {o : ObjectId} {typeName : String}
    {field : FieldPlan} {rest : List FieldPlan} {data d : Json} {r : Except PatchError Bool}
    {result : Except PatchError (List String)} {q : List Notification}
    (hfield : Writes plans h (.field o typeName field d r) h₁ q) (ht : h.Tidy)
    (hst : h.Writable plans o typeName (field :: rest)) {x : ObjectId} {name : String}
    (htouch : Goal.Touches h₁ (.fields o typeName rest data result) x name) :
    h.HasObject x ∧ ¬Goal.Touches h (.field o typeName field d r) x name := by
  refine hfield.spares.within_apart ht hfield.evolves hst.object (fun other hother hmem => ?_) htouch
  rw [List.mem_singleton] at hmem
  exact hst.not_mem_rest hd (hmem ▸ hother)

/-- The entries after the first one. -/
theorem Writes.apart_nextEntry (hd : plans.Distinct) {h h₁ h₂ : Heap} {l : ListId} {list : ObjectList}
    {position : Nat} {byId : List (String × ObjectId)} {concrete : String} {data : Json} {rest : List Json}
    {changes : List String} {targets : List ObjectId} {placed : Placed} {q₁ q₂ : List Notification}
    (hconcrete : concreteElement plans.graph list.elementType data = .ok concrete)
    (hentry : Writes plans (pick h list byId position concrete data).2
      (.object (pick h list byId position concrete data).1 data (.ok changes)) h₁ q₁)
    (hrest : Writes plans h₁ (.entries list (position + 1) (afterEntry data byId) rest targets placed) h₂ q₂)
    (hs : h.Sound plans) (hl : Listed h l list byId) {x : ObjectId} (hx : h₁.HasObject x)
    (htouch : ∃ c ∈ targets, h₁.Below c x) :
    h.HasObject x ∧ ¬h.Below (pick h list byId position concrete data).1 x := by
  obtain ⟨c, hc, hbelow⟩ := htouch
  have he := (evolves_pick h list byId position concrete data).trans hentry.evolves
  have hspares := Heap.Spares.entry hentry.spares
  obtain ⟨hs₁, hl₁⟩ := hl.next hd hs hentry
  have hne : c ≠ (pick h list byId position concrete data).1 := by
    rintro rfl
    exact (List.nodup_cons.1 ((Writes.nextEntry hconcrete hentry hrest).sound_meets hd hs ⟨l, hl⟩).2.1).1 hc
  rcases (hrest.sound_meets hd hs₁ ⟨l, hl₁⟩).2.2 c hc with ⟨-, hoffered⟩ | ⟨hnew, -⟩
  · have hitem : c ∈ (h.list l).items := by
      rw [hl.same]
      exact hl₁.mem_items_of_offered hoffered
    rw [(hspares.same_item hs.tidy he hl.pick_mem_items hitem hne).below] at hbelow
    have hold := hs.tidy.hasObject_of_below (hs.tidy.item hitem) hbelow
    refine ⟨hold, fun hpick => hne ?_⟩
    exact hs.tidy.item_unique hitem (hl.pick_mem_items (Heap.hasObject_of_below hold hpick)) hbelow hpick
  · rw [Heap.eq_of_below_of_not_hasObject hnew hbelow] at hx
    exact absurd hx hnew

/-- The element of an entry stays as it is while later entries are written. -/
theorem Writes.same_nextEntry (hd : plans.Distinct) {h h₁ h₂ : Heap} {l : ListId} {list : ObjectList}
    {position : Nat} {byId : List (String × ObjectId)} {concrete : String} {data : Json} {rest : List Json}
    {changes : List String} {targets : List ObjectId} {placed : Placed} {q₁ q₂ : List Notification}
    (hconcrete : concreteElement plans.graph list.elementType data = .ok concrete)
    (hentry : Writes plans (pick h list byId position concrete data).2
      (.object (pick h list byId position concrete data).1 data (.ok changes)) h₁ q₁)
    (hrest : Writes plans h₁ (.entries list (position + 1) (afterEntry data byId) rest targets placed) h₂ q₂)
    (hs : h.Sound plans) (hl : Listed h l list byId) :
    h₁.Same h₂ (pick h list byId position concrete data).1 := by
  have he := (evolves_pick h list byId position concrete data).trans hentry.evolves
  have hmade := hentry.evolves.objects (hl.hasObject_pick hs.tidy)
  have hs₁ := (hl.next hd hs hentry).1
  refine hrest.spares.same hs₁.tidy hrest.evolves hmade (fun x name hbelow htouch => ?_) fun _ => False.elim
  obtain ⟨hold, hnot⟩ := Writes.apart_nextEntry hd hconcrete hentry hrest hs hl
    (hs₁.tidy.hasObject_of_below hmade hbelow) htouch
  exact hnot (he.below hold hbelow)

end GraphClient.Live
