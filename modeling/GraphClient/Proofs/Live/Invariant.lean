import GraphClient.Proofs.Live.Forest

/-! Heaps that come about by writing. Objects and lists form trees, and every slot fits its field. Each
rule of writing keeps this, as it writes only what data asks of a field, and puts into a list only what
stands there already and objects that it has just made, each once. For the last point the ids of elements
matter: an element that an entry names by its id has one afterwards, so no later entry without an id
can be about it. -/

namespace GraphClient.Live

/-- That the fields of every object type have different names. -/
def Plans.Distinct (plans : Plans) : Prop :=
  ∀ {typeName plan}, plans.get? typeName = some plan → (plan.fields.map (·.wireName)).Nodup

variable {plans : Plans}

namespace Heap

/-- That objects and lists form trees in which everything has its type. -/
structure Sound (plans : Plans) (h : Heap) : Prop where
  typed : h.Typed plans
  tidy : h.Tidy

/-- That some fields of an object may be written: they are fields of its type. -/
structure Writable (plans : Plans) (h : Heap) (o : ObjectId) (typeName : String) (fields : List FieldPlan) :
    Prop where
  object : h.HasObject o
  type : (h.object o).typeName = typeName
  plan : ∃ plan, plans.get? typeName = some plan ∧ fields.Sublist plan.fields

variable {h h' : Heap} {o : ObjectId}

theorem Writable.evolves {typeName : String} {fields : List FieldPlan}
    (hw : h.Writable plans o typeName fields)
    (he : h.Evolves h') : h'.Writable plans o typeName fields :=
  ⟨he.objects hw.object, (he.typeName hw.object).trans hw.type, hw.plan⟩

theorem Writable.sublist {typeName : String} {fields fields' : List FieldPlan}
    (hw : h.Writable plans o typeName fields) (hsub : fields'.Sublist fields) :
    h.Writable plans o typeName fields' :=
  ⟨hw.object, hw.type, hw.plan.imp fun _ hplan => ⟨hplan.1, hsub.trans hplan.2⟩⟩

theorem Writable.of_plan {plan : TypePlan} (ho : h.HasObject o)
    (hplan : plans.get? (h.object o).typeName = some plan) :
    h.Writable plans o (h.object o).typeName plan.fields :=
  ⟨ho, rfl, plan, hplan, .refl _⟩

section

variable {typeName : String} {field : FieldPlan} {later : List FieldPlan}

theorem Writable.first (hw : h.Writable plans o typeName (field :: later)) :
    h.Writable plans o typeName [field] :=
  hw.sublist (List.singleton_sublist.2 List.mem_cons_self)

theorem Writable.rest (hw : h.Writable plans o typeName (field :: later)) :
    h.Writable plans o typeName later :=
  hw.sublist (List.sublist_cons_self _ _)

end

/-- The field that is written first is none of the others. -/
theorem Writable.not_mem_rest (hd : plans.Distinct) {typeName : String} {field : FieldPlan}
    {rest : List FieldPlan} (hw : h.Writable plans o typeName (field :: rest)) :
    field.wireName ∉ rest.map (·.wireName) := by
  obtain ⟨plan, hplan, hsub⟩ := hw.plan
  have hnodup := (hd hplan).sublist (hsub.map _)
  rw [List.map_cons, List.nodup_cons] at hnodup
  exact hnodup.1

/-- The field that is written is the one of its name. -/
theorem Writable.field_eq (hd : plans.Distinct) {typeName : String}
    {field other : FieldPlan} {plan : TypePlan}
    (hw : h.Writable plans o typeName [field]) (hplan : plans.get? (h.object o).typeName = some plan)
    (hother : other ∈ plan.fields) (hname : other.wireName = field.wireName) : other = field := by
  obtain ⟨plan', hplan', hsub⟩ := hw.plan
  rw [← hw.type, hplan, Option.some.injEq] at hplan'
  subst hplan'
  exact List.inj_on_of_nodup_map (hd hplan) hother (hsub.subset List.mem_cons_self) hname

namespace Sound

theorem empty : Heap.empty.Sound plans where
  typed := by
    refine ⟨fun {o name s} hget => absurd (hasObject_of_get? hget) (Nat.not_lt_zero _), fun {l x} hx => ?_⟩
    exact absurd (hasList_of_item hx) (Nat.not_lt_zero _)
  tidy := .empty

theorem refersIn (hs : h.Sound plans) {name : String} {s : Slot} (hget : (h.object o).get? name = some s) :
    s.RefersIn h := by
  have hslot := slot_of_get? hget
  cases s with
  | object x => exact (hs.tidy.object hslot).2
  | list l => exact hs.tidy.list hslot
  | _ => trivial

/-- What is typed stays so if all that is new is. -/
theorem typed_evolves (hs : h.Sound plans) (he : h.Evolves h')
    (hslot : ∀ {o name s}, (h'.object o).get? name = some s → (h.object o).get? name = some s ∨
      ∃ plan field, plans.get? (h'.object o).typeName = some plan ∧ field ∈ plan.fields ∧
        field.wireName = name ∧ field.Holds plans.graph h' s)
    (hitem : ∀ {l x}, x ∈ (h'.list l).items → x ∈ (h.list l).items ∨
      Admits plans.graph (h'.list l).elementType (h'.object x).typeName) : h'.Typed plans where
  slot {o name s} hget := by
    rcases hslot hget with hold | hnew
    · obtain ⟨plan, field, hplan, hfield, hname, hholds⟩ := hs.typed.slot hold
      rw [he.typeName (hasObject_of_get? hold)]
      exact ⟨plan, field, hplan, hfield, hname, hholds.evolves he (hs.refersIn hold)⟩
    · exact hnew
  item {l x} hx := by
    rcases hitem hx with hold | hnew
    · rw [he.typeName (hs.tidy.item hold), (he.listType (hasList_of_item hold)).1]
      exact hs.typed.item hold
    · exact hnew

theorem get?_newObject {typeName name : String} {x : ObjectId} {s : Slot}
    (hget : ((h.newObject typeName).2.object x).get? name = some s) : (h.object x).get? name = some s := by
  rw [object_newObject] at hget
  split at hget
  · cases hget
  · exact hget

theorem newObject (hs : h.Sound plans) (typeName : String) : (h.newObject typeName).2.Sound plans where
  typed := hs.typed_evolves (.newObject h typeName) (fun hget => .inl (get?_newObject hget)) .inl
  tidy := hs.tidy.newObject typeName

/-- Writing a slot that fits its field, after a step that adds no slots and no elements. -/
theorem typed_write (hs : h.Sound plans) {h₁ : Heap} {field : FieldPlan} {typeName : String} {s : Slot}
    (hw : h₁.Writable plans o typeName [field])
    (hget : ∀ {x name t}, (h₁.object x).get? name = some t → (h.object x).get? name = some t)
    (hitem : ∀ {l x}, x ∈ (h₁.list l).items → x ∈ (h.list l).items)
    (he : h.Evolves (h₁.write o field.wireName s))
    (hholds : field.Holds plans.graph (h₁.write o field.wireName s) s) :
    (h₁.write o field.wireName s).Typed plans := by
  refine hs.typed_evolves he (fun {x name t} hat => ?_) (fun {l x} hx => .inl ?_)
  · rw [get?_write] at hat
    split at hat
    · rename_i heq
      obtain ⟨rfl, rfl, -⟩ := heq
      cases hat
      obtain ⟨plan, hplan, hfield⟩ := hw.plan
      refine .inr ⟨plan, field, ?_, hfield.subset List.mem_cons_self, rfl, hholds⟩
      rw [typeName_write, hw.type, hplan]
    · exact .inl (hget hat)
  · rw [list_write] at hx
    exact hitem hx

theorem store (hs : h.Sound plans) {field : FieldPlan} {typeName : String} {data : Json} {s : Slot}
    (hw : h.Writable plans o typeName [field])
    (hdemand : demand plans.graph typeName field data = .store s) :
    (h.write o field.wireName s).Sound plans where
  typed := hs.typed_write hw id id (.write_plain (plain_of_demand hdemand) o _)
    (holds_of_demand_store hdemand _)
  tidy := hs.tidy.write_plain hw.object (plain_of_demand hdemand) _

theorem withObject (hs : h.Sound plans) {field : FieldPlan} {typeName concrete : String} {data : Json}
    (hw : h.Writable plans o typeName [field])
    (hdemand : demand plans.graph typeName field data = .fill concrete) :
    (h.withObject o field.wireName concrete).Sound plans where
  typed := hs.typed_write (hw.evolves (.newObject h concrete)) get?_newObject id (.withObject h o _ concrete)
    (holds_of_demand_fill hdemand (by rw [typeName_write, object_newObject, if_pos rfl]))
  tidy := hs.tidy.withObject hw.object _ _

theorem withList (hs : h.Sound plans) {field : FieldPlan} {typeName element : String} {keyed : Bool}
    {data : Json} {items : List Json} (hw : h.Writable plans o typeName [field])
    (hdemand : demand plans.graph typeName field data = .arrange element keyed items) :
    (h.withList o field.wireName element keyed).Sound plans where
  typed := by
    obtain ⟨isAbstract, hkind⟩ := kind_of_demand_arrange hdemand
    refine hs.typed_write (hw.evolves (.newList h element keyed)) id (fun hx => by rwa [items_newList] at hx)
      (.withList h o _ element keyed) ⟨isAbstract, ?_⟩
    rw [list_write, list_newList, if_pos rfl, hkind]
  tidy := hs.tidy.withList hw.object _ _ _

/-- The list in a field is for the elements that data asks for. -/
theorem listType_of_arrange (hd : plans.Distinct) (hs : h.Sound plans) {field : FieldPlan}
    {typeName element : String} {keyed : Bool} {data : Json} {items : List Json} {l : ListId}
    (hw : h.Writable plans o typeName [field])
    (hdemand : demand plans.graph typeName field data = .arrange element keyed items)
    (hslot : h.slot o field.wireName = .list l) :
    (h.list l).elementType = element ∧ (h.list l).keyed = keyed := by
  have hget : (h.object o).get? field.wireName = some (.list l) := by
    cases hget : (h.object o).get? field.wireName with
    | none => rw [slot, hget] at hslot; cases hslot
    | some s => rw [← hslot, slot_of_get? hget]
  obtain ⟨plan, other, hplan, hother, hname, isAbstract, hkind⟩ := hs.typed.slot hget
  obtain rfl := hw.field_eq hd hplan hother hname
  obtain ⟨isAbstract', hkind'⟩ := kind_of_demand_arrange hdemand
  rw [hkind, FieldKind.objectList.injEq] at hkind'
  exact ⟨hkind'.1, hkind'.2.2⟩

/-- Giving a list contents that are its own or that nothing refers to. -/
theorem setItems (hs : h.Sound plans) {l : ListId} (hl : h.HasList l) {items : List ObjectId}
    (hnodup : items.Nodup) (hitems : ∀ x ∈ items, x ∈ (h.list l).items ∨
      (h.HasObject x ∧ h.Loose x ∧ Admits plans.graph (h.list l).elementType (h.object x).typeName ∧
        ∀ o field, h.slot o field = .list l → o.number < x.number)) :
    (h.setItems l items).2.Sound plans where
  typed := by
    have hlist : ∀ k, ((h.setItems l items).2.list k).elementType = (h.list k).elementType ∧
        ((h.setItems l items).2.list k).keyed = (h.list k).keyed := by
      intro k
      rw [list_setItems]
      split <;> exact ⟨rfl, rfl⟩
    refine ⟨fun {x name s} hget => ?_, fun {k x} hx => ?_⟩
    · rw [Instance.get?, fields_setItems] at hget
      obtain ⟨plan, field, hplan, hfield, hname, hholds⟩ := hs.typed.slot hget
      refine ⟨plan, field, ?_, hfield, hname, ?_⟩
      · rw [typeName_setItems, hplan]
      · cases s with
        | object y => rwa [FieldPlan.Holds, typeName_setItems]
        | list k => rwa [FieldPlan.Holds, (hlist k).1, (hlist k).2]
        | _ => exact hholds
    · rw [typeName_setItems, (hlist k).1]
      rw [list_setItems] at hx
      split at hx
      · rename_i hk
        subst hk
        rcases hitems x hx with hold | ⟨-, -, hadmits, -⟩
        · exact hs.typed.item hold
        · exact hadmits
      · exact hs.typed.item hx
  tidy := hs.tidy.setItems hl hnodup fun x hx => (hitems x hx).imp_right fun hnew =>
    ⟨hnew.1, hnew.2.1, hnew.2.2.2⟩

end Sound

end Heap

/-! ### Goals -/

/-- That a list has some contents, and that elements of a keyed list have some ids. -/
structure Listed (h : Heap) (l : ListId) (list : ObjectList) (byId : List (String × ObjectId)) : Prop where
  made : h.HasList l
  same : h.list l = list
  ids : ∀ e ∈ byId, list.keyed = true ∧ e.2 ∈ list.items ∧ (h.object e.2).id? = some e.1

/-- What a goal relies on. -/
def Goal.Stands (plans : Plans) (h : Heap) : Goal → Prop
  | .object o _ _ => h.HasObject o
  | .fields o typeName plan _ _ => h.Writable plans o typeName plan
  | .field o typeName plan _ _ => h.Writable plans o typeName [plan]
  | .entries elements _ byId _ _ _ => ∃ l, Listed h l elements byId
  | .list l _ _ => h.HasList l

/-- That the fields of an object hold what data has for them to store. -/
def Heap.Stored (plans : Plans) (h : Heap) (o : ObjectId) (typeName : String) (fields : List FieldPlan)
    (data : Json) : Prop :=
  ∀ field ∈ fields, ∀ d slot, data.get? field.wireName = some d →
    demand plans.graph typeName field d = .store slot → h.slot o field.wireName = slot

/-- That an element is still to be had by entries. -/
def Offered (h : Heap) (list : ObjectList) (position : Nat) (byId : List (String × ObjectId))
    (x : ObjectId) : Prop :=
  (∃ id, (id, x) ∈ byId) ∨
    ∃ i, position ≤ i ∧ list.items[i]? = some x ∧ (list.keyed = true → (h.object x).id? = none)

/-- That an element is an old one that was to be had, or a new one for which there is no other place. -/
def Eligible (plans : Plans) (h h' : Heap) (list : ObjectList) (position : Nat)
    (byId : List (String × ObjectId)) (x : ObjectId) : Prop :=
  (h.HasObject x ∧ Offered h list position byId x) ∨
    (¬h.HasObject x ∧ h'.HasObject x ∧ h'.Loose x ∧
      Admits plans.graph list.elementType (h'.object x).typeName)

/-- What a goal achieves. -/
def Goal.Meets (plans : Plans) (h h' : Heap) : Goal → Prop
  | .object o data result => ∀ changes plan, result = .ok changes →
      plans.get? (h.object o).typeName = some plan →
        h'.Stored plans o (h.object o).typeName plan.fields data
  | .fields o typeName plan data result => ∀ changes, result = .ok changes →
      h'.Stored plans o typeName plan data
  | .field o typeName plan data _ => ∀ slot, demand plans.graph typeName plan data = .store slot →
      h'.slot o plan.wireName = slot
  | .entries elements position byId _ targets _ =>
      targets.Nodup ∧ ∀ x ∈ targets, Eligible plans h h' elements position byId x
  | .list .. => True

/-! ### Entries -/

section Entries

variable {h h₁ : Heap} {list : ObjectList} {position : Nat} {byId : List (String × ObjectId)}
  {concrete : String} {data : Json} {l : ListId}

theorem wireId?_eq_some {id : String} : wireId? data = some id ↔
    data.get? Instance.idField = some (.string id) ∨
      ∃ i, data.get? Instance.idField = some (.number (.whole i)) ∧ toString i = id := by
  rw [wireId?]
  cases data.get? Instance.idField with
  | none => simp
  | some d =>
      cases d with
      | number n => cases n <;> simp
      | _ => simp

/-- The element for an entry stands in the list if it is old. -/
theorem pick_mem_items (hbyId : ∀ e ∈ byId, e.2 ∈ list.items)
    (hold : h.HasObject (pick h list byId position concrete data).1) :
    (pick h list byId position concrete data).1 ∈ list.items := by
  rcases targets_pick h list byId position concrete data _ List.mem_cons_self hold with hitem | ⟨id, hid⟩
  · exact hitem
  · exact hbyId _ hid

theorem hasObject_pick (hitems : ∀ x ∈ list.items, h.HasObject x) (hbyId : ∀ e ∈ byId, e.2 ∈ list.items) :
    (pick h list byId position concrete data).2.HasObject (pick h list byId position concrete data).1 := by
  cases hmatch : matchElement h list byId position concrete data with
  | some x =>
      have hmem := targets_pick h list byId position concrete data
      rw [pick_of_match hmatch] at hmem ⊢
      rcases (matchElement_eq_some hmatch).2 with ⟨-, id, -, hlookup⟩ | ⟨hat, -⟩
      · exact hitems x (hbyId _ (mem_of_lookup hlookup))
      · exact hitems x (List.mem_of_getElem? hat)
  | none =>
      rw [pick_of_no_match hmatch, Heap.HasObject, Heap.size_newObject]
      exact Nat.lt_succ_self _

theorem typeName_pick (h : Heap) (list : ObjectList) (byId : List (String × ObjectId)) (position : Nat)
    (concrete : String) (data : Json) :
    ((pick h list byId position concrete data).2.object
      (pick h list byId position concrete data).1).typeName =
      concrete := by
  cases hmatch : matchElement h list byId position concrete data with
  | some x =>
      rw [pick_of_match hmatch]
      exact (matchElement_eq_some hmatch).1
  | none => rw [pick_of_no_match hmatch, Heap.object_newObject, if_pos rfl]

theorem Heap.Sound.pick (hs : h.Sound plans) : (pick h list byId position concrete data).2.Sound plans := by
  cases hmatch : matchElement h list byId position concrete data with
  | some x =>
      rw [pick_of_match hmatch]
      exact hs
  | none =>
      rw [pick_of_no_match hmatch]
      exact hs.newObject concrete

/-- The element for an entry was to be had if it is old, and otherwise nothing refers to it. -/
theorem offered_pick (list : ObjectList) (position : Nat) (byId : List (String × ObjectId))
    (concrete : String) (data : Json) (ht : h.Tidy) :
    Offered h list position byId (pick h list byId position concrete data).1 ∨
      (¬h.HasObject (pick h list byId position concrete data).1 ∧
        (pick h list byId position concrete data).2.Loose (pick h list byId position concrete data).1) := by
  cases hmatch : matchElement h list byId position concrete data with
  | some x =>
      rw [pick_of_match hmatch]
      rcases (matchElement_eq_some hmatch).2 with ⟨-, id, -, hlookup⟩ | ⟨hat, hnone⟩
      · exact .inl (.inl ⟨id, mem_of_lookup hlookup⟩)
      · exact .inl (.inr ⟨position, Nat.le_refl _, hat, fun hkeyed => (hnone hkeyed).2⟩)
  | none =>
      rw [pick_of_no_match hmatch]
      exact .inr ⟨h.not_hasObject_nextObject, ht.loose_newObject concrete⟩

/-- The element for an entry is no longer to be had by its id afterwards. -/
theorem ne_pick_of_mem_afterEntry (hbyId : ∀ e ∈ byId, list.keyed = true ∧ e.2 ∈ list.items ∧
      (h.object e.2).id? = some e.1) (hitems : ∀ x ∈ list.items, h.HasObject x)
    {e : String × ObjectId} (he : e ∈ afterEntry data byId) :
    e.2 ≠ (pick h list byId position concrete data).1 := by
  obtain ⟨hkeyed, hitem, hid⟩ := hbyId e (mem_of_afterEntry he)
  intro heq
  cases hmatch : matchElement h list byId position concrete data with
  | some x =>
      rw [pick_of_match hmatch] at heq
      rcases (matchElement_eq_some hmatch).2 with ⟨-, id, hwire, hlookup⟩ | ⟨-, hnone⟩
      · have hx := (hbyId _ (mem_of_lookup hlookup)).2.2
        rw [heq, hx] at hid
        rw [afterEntry, hwire] at he
        have hne := of_decide_eq_true (List.mem_filter.1 he).2
        exact hne (Option.some.inj hid).symm
      · rw [heq, (hnone hkeyed).2] at hid
        cases hid
  | none =>
      rw [pick_of_no_match hmatch] at heq
      have hold := hitems _ hitem
      rw [heq] at hold
      exact h.not_hasObject_nextObject hold

/-- An element that an entry names by its id has one when the entry is written. -/
theorem id_of_stored (hs : h.Sound plans) {x : ObjectId} {id : String} (hid : (h.object x).id? = some id)
    (hwire : (wireId? data).isSome)
    (hstored : ∀ plan, plans.get? (h.object x).typeName = some plan →
      h₁.Stored plans x (h.object x).typeName plan.fields data) : ((h₁.object x).id?).isSome := by
  obtain ⟨plan, field, leaf, hplan, hfield, hname, hkind, htext⟩ := hs.typed.id_field hid
  obtain ⟨given, hwire⟩ := Option.isSome_iff_exists.1 hwire
  have hget : ∃ d, data.get? Instance.idField = some d ∧ d ≠ .null := by
    rcases wireId?_eq_some.1 hwire with hget | ⟨i, hget, -⟩
    · exact ⟨_, hget, nofun⟩
    · exact ⟨_, hget, nofun⟩
  obtain ⟨d, hget, hnull⟩ := hget
  obtain ⟨s, hs⟩ := Leaf.convertOrDefault_of_isText htext d
  have hslot := hstored plan hplan field hfield d (.scalar (.string s)) (by rw [hname, hget]) (by
    rw [demand_leaf hkind, ← hs]
    cases d with
    | null => exact absurd rfl hnull
    | _ => rfl)
  rw [hname, ← Heap.id?_eq_some] at hslot
  rw [hslot]
  rfl

theorem Listed.hasObject (hl : Listed h l list byId) (ht : h.Tidy) : ∀ x ∈ list.items, h.HasObject x :=
  fun _ hx => ht.item (hl.same ▸ hx)

theorem Listed.pick_mem_items (hl : Listed h l list byId)
    (hold : h.HasObject (pick h list byId position concrete data).1) :
    (pick h list byId position concrete data).1 ∈ (h.list l).items := by
  rw [hl.same]
  exact Live.pick_mem_items (fun e he => (hl.ids e he).2.1) hold

theorem Listed.hasObject_pick (hl : Listed h l list byId) (ht : h.Tidy) :
    (pick h list byId position concrete data).2.HasObject (pick h list byId position concrete data).1 :=
  Live.hasObject_pick (hl.hasObject ht) fun e he => (hl.ids e he).2.1

/-- Writing an entry leaves the ids of all other elements alone. -/
theorem Listed.id_entry (hl : Listed h l list byId) (ht : h.Tidy)
    (hspares : h.Spares h₁ (fun x _ => h.Below (pick h list byId position concrete data).1 x) fun _ => False)
    {y : ObjectId} (hy : y ∈ list.items) (hne : y ≠ (pick h list byId position concrete data).1) :
    (h₁.object y).id? = (h.object y).id? := by
  refine Heap.id?_congr (hspares.slot (hl.hasObject ht y hy) fun hbelow => hne ?_)
  exact (ht.eq_of_below_target hl.pick_mem_items (hl.same ▸ hy) hbelow).symm

theorem Listed.entry (hl : Listed h l list byId) (ht : h.Tidy) (he : h.Evolves h₁)
    (hspares : h.Spares h₁ (fun x _ => h.Below (pick h list byId position concrete data).1 x)
      fun _ => False) :
    Listed h₁ l list (afterEntry data byId) where
  made := he.lists hl.made
  same := by
    rw [hspares.list hl.made id fun x name hbelow => ?_, hl.same]
    exact ht.slot_ne_list_of_below_target hl.pick_mem_items hbelow name
  ids e hmem := by
    obtain ⟨hkeyed, hitem, hid⟩ := hl.ids e (mem_of_afterEntry hmem)
    have hne : e.2 ≠ (pick h list byId position concrete data).1 :=
      ne_pick_of_mem_afterEntry hl.ids (hl.hasObject ht) hmem
    exact ⟨hkeyed, hitem, (hl.id_entry ht hspares hitem hne).trans hid⟩

/-- The element that an entry names by its id has one when the entry is written. -/
theorem Listed.id_pick (hs : h.Sound plans) (hl : Listed h l list byId)
    (hstored : ∀ plan, plans.get? ((pick h list byId position concrete data).2.object
      (pick h list byId position concrete data).1).typeName = some plan →
        h₁.Stored plans (pick h list byId position concrete data).1
        ((pick h list byId position concrete data).2.object
          (pick h list byId position concrete data).1).typeName plan.fields data) :
    ∀ id, (id, (pick h list byId position concrete data).1) ∈ byId → (wireId? data).isSome →
      ((h₁.object (pick h list byId position concrete data).1).id?).isSome := by
  intro id hmem hwire
  obtain ⟨-, hitem, hid⟩ := hl.ids _ hmem
  rw [← object_pick (hl.hasObject hs.tidy _ hitem) list byId position concrete data] at hid
  exact id_of_stored hs.pick hid hwire hstored

/-- An entry is about an element at a later position only by its id. -/
theorem Listed.mem_byId_of_later (hl : Listed h l list byId) (ht : h.Tidy) {i : Nat} (hi : position < i)
    (hat : list.items[i]? = some (pick h list byId position concrete data).1) :
    list.keyed = true ∧ ∃ id, wireId? data = some id ∧
      (id, (pick h list byId position concrete data).1) ∈ byId := by
  cases hmatch : matchElement h list byId position concrete data with
  | some x =>
      rw [pick_of_match hmatch] at hat ⊢
      rcases (matchElement_eq_some hmatch).2 with ⟨hkeyed, id, hwire, hlookup⟩ | ⟨hat', -⟩
      · exact ⟨hkeyed, id, hwire, mem_of_lookup hlookup⟩
      · have hlt : position < list.items.length := (List.getElem?_eq_some_iff.1 hat').1
        have hnodup : list.items.Nodup := hl.same ▸ ht.nodup
        have heq := (List.getElem?_inj hlt hnodup).1 (hat'.trans hat.symm)
        omega
  | none =>
      rw [pick_of_no_match hmatch] at hat
      exact absurd (hl.hasObject ht _ (List.mem_of_getElem? hat)) h.not_hasObject_nextObject

/-- What later entries can be about was to be had before, and is not the element for this entry. -/
theorem Listed.offered (hl : Listed h l list byId) (ht : h.Tidy)
    (hspares : h.Spares h₁ (fun x _ => h.Below (pick h list byId position concrete data).1 x) fun _ => False)
    (hid : ∀ id, (id, (pick h list byId position concrete data).1) ∈ byId → (wireId? data).isSome →
      ((h₁.object (pick h list byId position concrete data).1).id?).isSome)
    {y : ObjectId} (hoffered : Offered h₁ list (position + 1) (afterEntry data byId) y) :
    Offered h list position byId y ∧ y ≠ (pick h list byId position concrete data).1 := by
  rcases hoffered with ⟨id, hmem⟩ | ⟨i, hi, hat, hnone⟩
  · exact ⟨.inl ⟨id, mem_of_afterEntry hmem⟩, ne_pick_of_mem_afterEntry hl.ids (hl.hasObject ht) hmem⟩
  · have hy := List.mem_of_getElem? hat
    have hne : y ≠ (pick h list byId position concrete data).1 := by
      rintro rfl
      obtain ⟨hkeyed, id, hwire, hmem⟩ := hl.mem_byId_of_later ht hi hat
      have hsome := hid id hmem (by rw [hwire]; rfl)
      rw [hnone hkeyed] at hsome
      cases hsome
    refine ⟨.inr ⟨i, Nat.le_of_succ_le hi, hat, fun hkeyed => ?_⟩, hne⟩
    rw [← hl.id_entry ht hspares hy hne]
    exact hnone hkeyed

theorem Listed.mem_items_of_offered (hl : Listed h l list byId) {x : ObjectId}
    (hoffered : Offered h list position byId x) : x ∈ list.items := by
  rcases hoffered with ⟨id, hmem⟩ | ⟨i, -, hat, -⟩
  · exact (hl.ids _ hmem).2.1
  · exact List.mem_of_getElem? hat

theorem eligible_pick {h' : Heap} (hs : h.Sound plans) (hl : Listed h l list byId)
    (hconcrete : concreteElement plans.graph list.elementType data = .ok concrete)
    (he : (pick h list byId position concrete data).2.Evolves h') :
    Eligible plans h h' list position byId (pick h list byId position concrete data).1 := by
  have hmade : (pick h list byId position concrete data).2.HasObject
      (pick h list byId position concrete data).1 := hl.hasObject_pick hs.tidy
  rcases offered_pick list position byId concrete data hs.tidy with hoffered | ⟨hnew, hloose⟩
  · exact .inl ⟨hl.hasObject hs.tidy _ (hl.mem_items_of_offered hoffered), hoffered⟩
  · refine .inr ⟨hnew, he.objects hmade, he.loose hmade hloose, ?_⟩
    rw [he.typeName hmade, typeName_pick]
    exact admits_of_concreteElement hconcrete

end Entries

/-! ### Steps -/

/-- Entries do not change the list that they are for. -/
theorem Writes.list_of_entries {h h' : Heap} {l : ListId} {rest : List Json} {targets : List ObjectId}
    {placed : Placed} {q : List Notification}
    (hw : Writes plans h (.entries (h.list l) 0 (elementIds h (h.list l)) rest targets placed) h' q)
    (ht : h.Tidy) (hl : h.HasList l) : h'.list l = h.list l := by
  apply hw.spares.list hl id
  intro x name htouch
  obtain ⟨c, hc, hbelow⟩ := htouch
  exact ht.slot_ne_list_of_below_target (hw.target_mem hc) hbelow name

theorem Listed.of_list {h : Heap} {l : ListId} (hl : h.HasList l) :
    Listed h l (h.list l) (elementIds h (h.list l)) := ⟨hl, rfl, fun _ hmem => mem_of_elementIds hmem⟩

theorem nodup_contents {placed : Placed} {old targets : List ObjectId} (hsub : placed.items.Sublist targets)
    (htargets : targets.Nodup) (hold : old.Nodup) : (placed.contents old).Nodup := by
  have hplaced := htargets.sublist hsub
  unfold Placed.contents
  split
  · exact hplaced
  · apply hplaced.append (hold.filter _)
    intro x hx hx'
    exact of_decide_eq_true (List.mem_filter.1 hx').2 hx

theorem mem_contents {placed : Placed} {old : List ObjectId} {x : ObjectId}
    (hx : x ∈ placed.contents old) : x ∈ placed.items ∨ x ∈ old := by
  unfold Placed.contents at hx
  split at hx
  · exact .inl hx
  · exact (List.mem_append.1 hx).imp_right fun hx => (List.mem_filter.1 hx).1

theorem Goal.Halts.meets {h : Heap} {g : Goal} (hhalt : g.Halts plans h) : g.Meets plans h h := by
  cases hhalt with
  | unknownType hplan => exact fun changes plan hok => nomatch hok
  | expectedObject hplan hdata => exact fun changes plan hok => nomatch hok
  | noField => exact fun changes _ field hfield => absurd hfield List.not_mem_nil
  | refused hdemand =>
      intro slot hslot
      rw [hdemand] at hslot
      cases hslot
  | noEntry => exact ⟨List.nodup_nil, fun x hx => absurd hx List.not_mem_nil⟩
  | refusedEntry hconcrete => exact ⟨List.nodup_nil, fun x hx => absurd hx List.not_mem_nil⟩

/-- A list whose entries were written in a sound heap can have its new contents. -/
theorem Writes.sound_list {h h' : Heap} {l : ListId} {items : List Json}
    {targets : List ObjectId} {placed : Placed} {q : List Notification}
    (hentries : Writes plans h (.entries (h.list l) 0 (elementIds h (h.list l)) items targets placed) h' q)
    (hs : h.Sound plans) (hl : h.HasList l) (hs' : h'.Sound plans)
    (hmeets : Goal.Meets plans h h' (.entries (h.list l) 0 (elementIds h (h.list l)) items targets placed)) :
    (h'.setItems l (placed.contents (h.list l).items)).2.Sound plans := by
  obtain ⟨hnodup, htargets⟩ := hmeets
  have hsub := hentries.evolves_picks.2.2
  have hsame := hentries.list_of_entries hs.tidy hl
  refine hs'.setItems (hentries.evolves.lists hl) (nodup_contents hsub hnodup hs.tidy.nodup) fun x hx => ?_
  rw [hsame]
  rcases mem_contents hx with hx | hx
  · rcases htargets x (hsub.subset hx) with ⟨hmade, -⟩ | ⟨hnew, hmade, hloose, hadmits⟩
    · exact .inl (hentries.target_mem (hsub.subset hx) hmade)
    · refine .inr ⟨hmade, hloose, hadmits, fun o field hslot => ?_⟩
      -- what refers to the list is old, and new objects are younger than old ones
      have ho := Heap.hasObject_of_slot (hentries.evolves.slotList hl hslot) nofun
      exact Nat.lt_of_lt_of_le ho (Nat.le_of_not_lt hnew)
  · exact .inl hx

/-- **Writing keeps heaps sound.** -/
theorem Writes.sound_meets (hd : plans.Distinct) {h h' : Heap} {g : Goal} {q : List Notification}
    (hw : Writes plans h g h' q) (hs : h.Sound plans) (hst : g.Stands plans h) :
    h'.Sound plans ∧ g.Meets plans h h' := by
  induction hw with
  | halt hhalt => exact ⟨hs, hhalt.meets⟩
  | object hplan hfields ih =>
      obtain ⟨hs', hmeets⟩ := ih hs (.of_plan hst hplan)
      refine ⟨hs', fun changes plan hok hplan' => ?_⟩
      rw [hplan, Option.some.injEq] at hplan'
      exact hplan' ▸ hmeets changes hok
  | skip hget hrest ih =>
      obtain ⟨hs', hmeets⟩ := ih hs hst.rest
      refine ⟨hs', fun changes hok field hfield d slot hd hslot => ?_⟩
      rcases List.mem_cons.1 hfield with rfl | hfield
      · rw [hget] at hd
        cases hd
      · exact hmeets changes hok field hfield d slot hd hslot
  | stop hget hfield ih =>
      exact ⟨(ih hs hst.first).1, fun changes hok => nomatch hok⟩
  | @next h h₁ h₂ o typeName field rest data d changed result q₁ q₂ hget hfield hrest ihfield ihrest =>
      obtain ⟨hs₁, hstored⟩ := ihfield hs hst.first
      have hst₁ : h₁.Writable plans o typeName rest := hst.rest.evolves hfield.evolves
      obtain ⟨hs₂, hmeets⟩ := ihrest hs₁ hst₁
      refine ⟨hs₂, fun changes hok other hother d' slot hd' hslot => ?_⟩
      obtain ⟨changes, rfl⟩ : ∃ later, result = .ok later := by
        cases result with
        | ok later => exact ⟨later, rfl⟩
        | error e => cases hok
      rcases List.mem_cons.1 hother with rfl | hother
      -- the fields that follow have other names, so what this one stored is still there
      · rw [hget, Option.some.injEq] at hd'
        subst hd'
        rw [hrest.spares.slot hst₁.object (hs₁.tidy.not_within (Heap.Writable.not_mem_rest hd hst)),
          hstored slot hslot]
      · exact hmeets changes rfl other hother d' slot hd' hslot
  | @store h o typeName field data slot hdemand =>
      refine ⟨hs.store hst hdemand, fun other hother => ?_⟩
      rw [hdemand, Demand.store.injEq] at hother
      rw [Heap.slot_write, if_pos ⟨rfl, rfl⟩, hother]
  | keep hdemand hkept hinner ih =>
      refine ⟨(ih hs (hs.tidy.object (Heap.slot_of_kept hkept).1).2).1, fun slot hslot => ?_⟩
      rw [hdemand] at hslot
      cases hslot
  | @replace h h' o typeName concrete field data result q hdemand hkept hinner ih =>
      refine ⟨(ih (hs.withObject hst hdemand) (Heap.made_withObject hst.object _ _)).1, fun slot hslot => ?_⟩
      rw [hdemand] at hslot
      cases hslot
  | reuse hdemand hlist hinner ih =>
      rw [Heap.list?_eq_some] at hlist
      refine ⟨(ih hs (hs.tidy.list hlist)).1, fun slot hslot => ?_⟩
      rw [hdemand] at hslot
      cases hslot
  | @attach h h' o typeName element keyed field data items result q hdemand hlist hinner ih =>
      refine ⟨(ih (hs.withList hst hdemand) (Heap.made_withList ..)).1, fun slot hslot => ?_⟩
      rw [hdemand] at hslot
      cases hslot
  | @stopEntry h h' list position byId concrete data rest e q hconcrete hentry ih =>
      obtain ⟨l, hl⟩ := hst
      obtain ⟨hs', -⟩ := ih hs.pick (hl.hasObject_pick hs.tidy)
      refine ⟨hs', List.nodup_singleton _, fun x hx => ?_⟩
      rw [List.mem_singleton] at hx
      subst hx
      exact eligible_pick hs hl hconcrete hentry.evolves
  | @nextEntry h h₁ h₂ list position byId concrete data rest changes targets placed q₁ q₂ hconcrete hentry
      hrest ihentry ihrest =>
      obtain ⟨l, hl⟩ := hst
      have he := (evolves_pick h list byId position concrete data).trans hentry.evolves
      have hspares := Heap.Spares.entry hentry.spares
      obtain ⟨hs₁, hmeets₁⟩ := ihentry hs.pick (hl.hasObject_pick hs.tidy)
      obtain ⟨hs₂, hnodup, hmeets₂⟩ := ihrest hs₁ ⟨l, hl.entry hs.tidy he hspares⟩
      -- the element of this entry is taken: its id was removed, or its position has passed
      have hold := fun {y} (hoffered : Offered h₁ list (position + 1) (afterEntry data byId) y) =>
        hl.offered hs.tidy hspares (hl.id_pick hs fun plan hplan => hmeets₁ changes plan rfl hplan) hoffered
      refine ⟨hs₂, List.nodup_cons.2 ⟨fun hmem => ?_, hnodup⟩, fun x hx => ?_⟩
      · rcases hmeets₂ _ hmem with ⟨-, hoffered⟩ | ⟨hnew, -⟩
        · exact (hold hoffered).2 rfl
        · exact hnew (hentry.evolves.objects (hl.hasObject_pick hs.tidy))
      · rcases List.mem_cons.1 hx with rfl | hx
        · exact eligible_pick hs hl hconcrete (hentry.evolves.trans hrest.evolves)
        · rcases hmeets₂ x hx with ⟨-, hoffered⟩ | ⟨hnew, hlater⟩
          · exact .inl ⟨hl.hasObject hs.tidy _ (hl.mem_items_of_offered (hold hoffered).1), (hold hoffered).1⟩
          · exact .inr ⟨fun hx => hnew (he.objects hx), hlater⟩
  | list hentries ih =>
      obtain ⟨hs', hmeets⟩ := ih hs ⟨_, .of_list hst⟩
      exact ⟨hentries.sound_list hs hst hs' hmeets, trivial⟩

/-- What the other fields rely on is there when the first one is written. -/
theorem Heap.Writable.next (hd : plans.Distinct) {h h₁ : Heap} {o : ObjectId}
    {typeName : String} {field : FieldPlan}
    {rest : List FieldPlan} {d : Json} {r : Except PatchError Bool} {q : List Notification}
    (hst : h.Writable plans o typeName (field :: rest)) (hs : h.Sound plans)
    (hfield : Writes plans h (.field o typeName field d r) h₁ q) :
    h₁.Sound plans ∧ h₁.Writable plans o typeName rest :=
  ⟨(hfield.sound_meets hd hs hst.first).1, hst.rest.evolves hfield.evolves⟩

/-- What the other entries rely on is there when one is written. -/
theorem Listed.next (hd : plans.Distinct) {h h₁ : Heap} {l : ListId} {list : ObjectList} {position : Nat}
    {byId : List (String × ObjectId)} {concrete : String} {data : Json} {r : Except PatchError (List String)}
    {q : List Notification} (hl : Listed h l list byId) (hs : h.Sound plans)
    (hentry : Writes plans (pick h list byId position concrete data).2
      (.object (pick h list byId position concrete data).1 data r) h₁ q) :
    h₁.Sound plans ∧ Listed h₁ l list (afterEntry data byId) :=
  ⟨(hentry.sound_meets hd hs.pick (hl.hasObject_pick hs.tidy)).1,
    hl.entry hs.tidy ((evolves_pick h list byId position concrete data).trans hentry.evolves)
      (.entry hentry.spares)⟩

/-- The elements that are to be had by later entries were so before, and the one for
this entry is not among them. -/
theorem Listed.offered_next (hd : plans.Distinct) {h h₁ : Heap} {l : ListId}
    {list : ObjectList} {position : Nat}
    {byId : List (String × ObjectId)} {concrete : String} {data : Json} {changes : List String}
    {q : List Notification} (hl : Listed h l list byId) (hs : h.Sound plans)
    (hentry : Writes plans (pick h list byId position concrete data).2
      (.object (pick h list byId position concrete data).1 data (.ok changes)) h₁ q) {y : ObjectId}
    (hoffered : Offered h₁ list (position + 1) (afterEntry data byId) y) :
    Offered h list position byId y ∧ y ≠ (pick h list byId position concrete data).1 := by
  have hmeets := (hentry.sound_meets hd hs.pick (hl.hasObject_pick hs.tidy)).2
  exact hl.offered hs.tidy (.entry hentry.spares)
    (hl.id_pick hs fun plan hplan => hmeets changes plan rfl hplan)
    hoffered

/-! ### Reached heaps -/

/-- The answer, heap and noted changes of a step. -/
def outcome {α : Type} (step : Patching α) (h : Heap) : Except PatchError α × Heap × List Notification :=
  let (result, progress) := StateT.run step.run ⟨h, []⟩
  (result, progress.heap, progress.pending)

theorem Yields.outcome_eq {α : Type} {step : Patching α} {h h' : Heap} {r : Except PatchError α}
    {q : List Notification} (hy : Yields step.run h r h' q) : outcome step h = (r, h', q) := by
  rw [outcome, hy []]
  rfl

/-- The outcome of writing an object follows the rules. -/
theorem writes_patch (plans : Plans) (o : ObjectId) (data : Json) (h : Heap) :
    Writes plans h (.object o data (outcome (patch plans data o) h).1) (outcome (patch plans data o) h).2.1
      (outcome (patch plans data o) h).2.2 := by
  obtain ⟨r, h', q, hwrites⟩ := follows plans data o h
  rw [Yields.outcome_eq hwrites.runs]
  exact hwrites

theorem writes_reconcile (plans : Plans) (l : ListId) (items : List Json) (h : Heap) :
    Writes plans h (.list l items (outcome (reconcile plans l items) h).1)
      (outcome (reconcile plans l items) h).2.1 (outcome (reconcile plans l items) h).2.2 := by
  obtain ⟨r, h', q, hwrites⟩ := exists_writes_list (fun d _ => follows plans d) l h
  rw [Yields.outcome_eq hwrites.runs]
  exact hwrites

/-- The heaps that come about by making objects and writing them with data, whether or not that succeeds. -/
inductive Reached (plans : Plans) : Heap → Prop
  | empty : Reached plans .empty
  | newObject {h : Heap} (typeName : String) (hr : Reached plans h) : Reached plans (h.newObject typeName).2
  | patch {h : Heap} {o : ObjectId} (data : Json) (hr : Reached plans h) (ho : h.HasObject o) :
      Reached plans (outcome (patch plans data o) h).2.1
  | reconcile {h : Heap} {l : ListId} (items : List Json) (hr : Reached plans h) (hl : h.HasList l) :
      Reached plans (outcome (reconcile plans l items) h).2.1

theorem Reached.sound (hd : plans.Distinct) {h : Heap} (hr : Reached plans h) : h.Sound plans := by
  induction hr with
  | empty => exact .empty
  | newObject typeName _ ih => exact ih.newObject typeName
  | @patch h o data _ ho ih => exact ((writes_patch plans o data h).sound_meets hd ih ho).1
  | @reconcile h l items _ hl ih => exact ((writes_reconcile plans l items h).sound_meets hd ih hl).1

end GraphClient.Live
