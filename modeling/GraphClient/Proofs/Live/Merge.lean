import GraphClient.Proofs.Live.Writing

/-! Merging data into a tree. This says what writing comes to where nothing has an identity: an object is
its type with the trees in its fields, and data for it gives another tree. What data does not mention
stays, what it is still about is merged in its turn, and everything else is built from nothing. -/

namespace GraphClient.Live

/-- What a field holds, with everything that it leads to. -/
inductive Snapshot
  | null
  | scalar (value : ScalarValue)
  | scalars (values : List ScalarValue)
  | object (typeName : String) (fields : Table Snapshot)
  | list (items : List Snapshot)

namespace Snapshot

/-- An object without fields. -/
def blank (typeName : String) : Snapshot := object typeName .empty

def typeName? : Snapshot → Option String
  | object typeName _ => some typeName
  | _ => none

/-- The text that tells an object apart from others of its type. -/
def id? : Snapshot → Option String
  | object _ fields =>
      match fields.get? Instance.idField with
      | some (scalar (.string s)) => some s
      | _ => none
  | _ => none

/-- Whether data may be about a tree as an object of a type: two ids must not differ. -/
def suits (concrete : String) (data : Json) (tree : Snapshot) : Bool :=
  tree.typeName? = some concrete &&
    match wireId? data, tree.id? with
    | some incoming, some own => own = incoming
    | _, _ => true

/-- What is in a slot that refers to nothing. -/
def ofPlain : Slot → Snapshot
  | .scalar v => scalar v
  | .scalars vs => scalars vs
  | .null | .object _ | .list _ => null

/-- Puts a tree into a field. Nothing is put into a field that was never set. -/
def put (fields : Table Snapshot) (name : String) : Snapshot → Table Snapshot
  | null => if fields.contains name then fields.insert name null else fields
  | tree => fields.insert name tree

theorem put_null (fields : Table Snapshot) (name : String) :
    put fields name null = if fields.contains name then fields.insert name null else fields := rfl

theorem put_of_ne_null {tree : Snapshot} (hne : tree ≠ null) (fields : Table Snapshot) (name : String) :
    put fields name tree = fields.insert name tree := by
  cases tree with
  | null => exact absurd rfl hne
  | _ => rfl

theorem put_of_contains {fields : Table Snapshot} {name : String} (hcontains : fields.contains name = true)
    (tree : Snapshot) : put fields name tree = fields.insert name tree := by
  cases tree with
  | null => rw [put_null, if_pos hcontains]
  | _ => rfl

/-- The trees of the list in a field. -/
def itemsAt (fields : Table Snapshot) (name : String) : List Snapshot :=
  match fields.get? name with
  | some (list items) => items
  | _ => []

end Snapshot

/-- What becomes of a tree. -/
abbrev Merger := Snapshot → Except PatchError Snapshot

/-- The old element that an entry is about. In a keyed list it is the first one with the id of the entry,
unless an earlier entry had that id, and for an entry without id the one at the same position, if that has
no id either. In any other list the position decides. The object type must always agree. -/
def matchingTree (old : List Snapshot) (keyed : Bool) (earlier : List String) (position : Nat)
    (concrete : String) (data : Json) : Option Snapshot :=
  let candidate :=
    if keyed then
      match wireId? data with
      | some id => if id ∈ earlier then none else old.find? fun tree => tree.id? = some id
      | none => old[position]?.filter fun tree => tree.id?.isNone
    else old[position]?
  candidate.filter fun tree => tree.typeName? = some concrete

/-- The trees for entries from a position on; `inner` merges their data. -/
def mergeEntries (graph : TypeGraph) (element : String) (keyed : Bool) (old : List Snapshot) :
    (items : List Json) → ((item : Json) → item ∈ items → Merger) → (position : Nat) →
      (earlier : List String) → Except PatchError (List Snapshot)
  | [], _, _, _ => return []
  | data :: rest, inner, position, earlier => do
      let concrete ← concreteElement graph element data
      let tree ← inner data List.mem_cons_self
        ((matchingTree old keyed earlier position concrete data).getD (.blank concrete))
      let later ← mergeEntries graph element keyed old rest
        (fun item h => inner item (List.mem_cons_of_mem _ h))
        (position + 1) ((wireId? data).toList ++ earlier)
      return tree :: later

/-- The value of a leaf for data that is not null: what it converts to, or else the default. -/
def leafValue (leaf : Leaf) (data : Json) : ScalarValue :=
  match leaf.convert data with
  | .ok v => v
  | .error _ => leaf.default

/-- The value of an item in a list of leaves. A null item stays null where that is allowed,
and is the default elsewhere. -/
def leafItem (leaf : Leaf) (itemNullable : Bool) (item : Json) : ScalarValue :=
  match item, itemNullable with
  | .null, true => .null
  | .null, false => leaf.default
  | item, _ => leafValue leaf item

theorem leafItem_eq (leaf : Leaf) (itemNullable : Bool) :
    leafItem leaf itemNullable = itemValue leaf itemNullable := by
  funext item
  cases item with
  | null => cases itemNullable <;> rfl
  | _ => rfl

/-- Merges the data of a field into the fields of an object. -/
def mergeField (graph : TypeGraph) (typeName : String) (field : FieldPlan) (data : Json)
    (inner : (d : Json) → sizeOf d ≤ sizeOf data → Merger) (fields : Table Snapshot) :
    Except PatchError (Table Snapshot) :=
  let name := field.wireName
  let put := Snapshot.put fields name
  let old (concrete : String) : Snapshot :=
    ((fields.get? name).filter (·.suits concrete data)).getD (.blank concrete)
  match field.kind, data with
  | .leaf leaf, .null => return put (if field.nullable then .null else .scalar leaf.default)
  | .leaf leaf, data => return put (.scalar (leafValue leaf data))
  | .leafList _ _, .null => return put (if field.nullable then .null else .scalars [])
  | .leafList leaf itemNullable, .array items =>
      return put (.scalars (items.map (leafItem leaf itemNullable)))
  | .leafList _ _, _ => throw (.invalidData typeName name .list)
  | _, .null => if field.nullable then return put .null else throw (.nullViolation typeName name)
  | .object target, .object members => do
      return put (← inner (.object members) (Nat.le_refl _) (old target))
  | .abstract target, .object members => do
      let concrete ← concreteType graph target data
      return put (← inner (.object members) (Nat.le_refl _) (old concrete))
  | .object _, _ | .abstract _, _ => throw (.invalidData typeName name .object)
  | .objectList element _ keyed, .array items => do
      return put (.list (← mergeEntries graph element keyed (Snapshot.itemsAt fields name) items
        (fun item h => inner item (Nat.le_of_lt (Json.sizeOf_item_lt h))) 0 []))
  | .objectList _ _ _, _ => throw (.invalidData typeName name .list)

/-- Merges those of some fields that data has. -/
def mergeFields (graph : TypeGraph) (typeName : String) (data : Json)
    (inner : (d : Json) → sizeOf d < sizeOf data → Merger) :
    List FieldPlan → Table Snapshot → Except PatchError (Table Snapshot)
  | [], fields => return fields
  | field :: rest, fields => do
      match h : data.get? field.wireName with
      | none => mergeFields graph typeName data inner rest fields
      | some incoming =>
          let fields ← mergeField graph typeName field incoming
            (fun d le => inner d (Nat.lt_of_le_of_lt le (Json.sizeOf_get?_lt h))) fields
          mergeFields graph typeName data inner rest fields

/-- Merges data into a tree; `inner` merges what is inside of the data. -/
def mergeWith (plans : Plans) (data : Json) (inner : (d : Json) → sizeOf d < sizeOf data → Merger) : Merger
  | .object typeName fields => do
      match plans.get? typeName with
      | none => throw (.unknownType typeName)
      | some plan =>
          match data, inner with
          | .object members, inner =>
              return .object typeName
                (← mergeFields plans.graph typeName (.object members) inner plan.fields fields)
          | _, _ => throw (.expectedObject typeName)
  | tree => return tree

/-- Merges data into a tree. -/
def merge (plans : Plans) (data : Json) : Merger :=
  mergeWith plans data fun inner _ => merge plans inner
termination_by sizeOf data

variable {graph : TypeGraph} {typeName : String} {field : FieldPlan} {data : Json} {merger : Json → Merger}
  {fields : Table Snapshot}

theorem mergeField_of_store {slot : Slot} (hdemand : demand graph typeName field data = .store slot) :
    mergeField graph typeName field data (fun d _ => merger d) fields =
      .ok (Snapshot.put fields field.wireName (.ofPlain slot)) := by
  obtain ⟨name, wireName, kind, nullable, isId⟩ := field
  have hasks := demands graph typeName ⟨name, wireName, kind, nullable, isId⟩ data
  rw [hdemand] at hasks
  cases hasks with
  | leaf data hkind =>
      cases hkind
      cases data <;> cases nullable <;> rfl
  | noLeaves hkind =>
      cases hkind
      cases nullable <;> rfl
  | @leaves leaf itemNullable items hkind =>
      cases hkind
      rw [← leafItem_eq]
      rfl
  | null hnullable =>
      cases hnullable
      cases kind <;> rfl

theorem mergeField_of_fill {concrete : String} (hdemand : demand graph typeName field data = .fill concrete) :
    mergeField graph typeName field data (fun d _ => merger d) fields =
      (merger data (((fields.get? field.wireName).filter (·.suits concrete data)).getD (.blank concrete))).map
        (Snapshot.put fields field.wireName) := by
  obtain ⟨name, wireName, kind, nullable, isId⟩ := field
  have hasks := demands graph typeName ⟨name, wireName, kind, nullable, isId⟩ data
  rw [hdemand] at hasks
  cases hasks with
  | object members hkind =>
      cases hkind
      rfl
  | member hkind hconcrete =>
      cases hkind
      simp only [mergeField, hconcrete]
      rfl

theorem mergeField_of_arrange {element : String} {keyed : Bool} {items : List Json}
    (hdemand : demand graph typeName field data = .arrange element keyed items) :
    mergeField graph typeName field data (fun d _ => merger d) fields =
      (mergeEntries graph element keyed (Snapshot.itemsAt fields field.wireName) items
        (fun item _ => merger item) 0 []).map fun trees => Snapshot.put fields field.wireName
          (.list trees) := by
  obtain ⟨name, wireName, kind, nullable, isId⟩ := field
  have hasks := demands graph typeName ⟨name, wireName, kind, nullable, isId⟩ data
  rw [hdemand] at hasks
  cases hasks with
  | list items hkind =>
      cases hkind
      rfl

theorem mergeField_of_refuse {e : PatchError} (hdemand : demand graph typeName field data = .refuse e) :
    mergeField graph typeName field data (fun d _ => merger d) fields = .error e := by
  obtain ⟨name, wireName, kind, nullable, isId⟩ := field
  cases kind <;> cases data <;> cases nullable <;> simp only [demand] at hdemand <;>
    first
      | cases hdemand; rfl
      | cases hdemand
      | skip
  all_goals
    split at hdemand
    · cases hdemand
    · rename_i hconcrete
      cases hdemand
      simp only [mergeField, hconcrete]
      rfl

theorem mergeFields_skip {rest : List FieldPlan} (hget : data.get? field.wireName = none) :
    mergeFields graph typeName data (fun d _ => merger d) (field :: rest) fields =
      mergeFields graph typeName data (fun d _ => merger d) rest fields := by
  rw [mergeFields]
  split
  · rfl
  · rename_i hget'
    rw [hget] at hget'
    cases hget'

theorem mergeFields_cons {rest : List FieldPlan} {d : Json} (hget : data.get? field.wireName = some d) :
    mergeFields graph typeName data (fun d _ => merger d) (field :: rest) fields =
      (mergeField graph typeName field d (fun d _ => merger d) fields).bind fun fields =>
        mergeFields graph typeName data (fun d _ => merger d) rest fields := by
  rw [mergeFields]
  split
  · rename_i hget'
    rw [hget] at hget'
    cases hget'
  · rename_i d' hget'
    obtain rfl := Option.some.inj (hget.symm.trans hget')
    rfl

theorem mergeEntries_cons {element concrete : String} {keyed : Bool}
    (hconcrete : concreteElement graph element data = .ok concrete) (old : List Snapshot) (rest : List Json)
    (position : Nat) (earlier : List String) :
    mergeEntries graph element keyed old (data :: rest) (fun d _ => merger d) position earlier =
      (merger data ((matchingTree old keyed earlier position concrete data).getD (.blank concrete))).bind
        fun tree => (mergeEntries graph element keyed old rest (fun d _ => merger d) (position + 1)
          ((wireId? data).toList ++ earlier)).bind fun later => .ok (tree :: later) := by
  rw [mergeEntries, hconcrete]
  rfl

end GraphClient.Live
