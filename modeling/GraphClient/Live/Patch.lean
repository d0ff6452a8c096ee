import GraphClient.Live.Heap
import GraphClient.Live.Plan

/-! Writing data into objects. The fields that the data has are written one after the other; a field is
written, and its change noted, only if its value differs from the one there is. Objects and lists that
the data is still about are kept and written in their turn, others are replaced by new ones. The noted
changes are told when all is written, and also if an error ends the writing early: what was written up
to then stays. -/

namespace GraphClient.Live

/-- What the data of a field has to be. -/
inductive Shape
  | list
  | object
  deriving DecidableEq, Repr

def Shape.text : Shape → String
  | list => "a list"
  | object => "an object"

/-- Why data cannot be written. -/
inductive PatchError
  /-- The object is of no object type of the schema. -/
  | unknownType (typeName : String)
  /-- The data for an abstract type names no possible type of it. -/
  | discriminator (typeName : String) (given : Option String)
  | nullViolation (typeName field : String)
  | invalidData (typeName field : String) (expected : Shape)
  /-- An object was to be written with data that is no object. -/
  | expectedObject (typeName : String)
  deriving DecidableEq, Repr

def PatchError.message : PatchError → String
  | unknownType typeName => "type `" ++ typeName ++ "` is not an object type of the schema"
  | discriminator typeName given =>
      "cannot pick a concrete type for `" ++ typeName ++ "`: " ++
        match given with
        | some name => "`" ++ name ++ "` is not a possible type"
        | none => "`__typename` is missing"
  | nullViolation typeName field => "null for non-null field `" ++ typeName ++ "." ++ field ++ "`"
  | invalidData typeName field expected =>
      "`" ++ typeName ++ "." ++ field ++ "`: expected " ++ expected.text
  | expectedObject typeName => "data for `" ++ typeName ++ "` is not an object"

/-- A change to be told. -/
inductive Notification
  | field (object : ObjectId) (name : String)
  | list (list : ListId) (changes : List (ListChange ObjectId))
  deriving DecidableEq, Repr

/-- What is written so far, and the changes to be told in their order. -/
structure Progress where
  heap : Heap
  pending : List Notification

/-- A step that may end with an error; the progress made until then stays. -/
abbrev Patching := ExceptT PatchError (StateM Progress)

/-- Writes an object and gives the names of its fields that changed. -/
abbrev Writer := ObjectId → Patching (List String)

/-- Writes a field and notes the change; tells whether there is one. -/
def writeSlot (o : ObjectId) (field : String) (slot : Slot) : Patching Bool := do
  let p ← get
  if p.heap.differs o field slot then
    set (⟨p.heap.write o field slot, p.pending ++ [.field o field]⟩ : Progress)
    return true
  else return false

def createObject (typeName : String) : StateM Progress ObjectId :=
  modifyGet fun p => let (o, h) := p.heap.newObject typeName; (o, ⟨h, p.pending⟩)

def createList (elementType : String) (keyed : Bool) : StateM Progress ListId :=
  modifyGet fun p => let (l, h) := p.heap.newList elementType keyed; (l, ⟨h, p.pending⟩)

/-- The member of data that tells the object type. -/
def typeNameField : String := "__typename"

/-- The id in data, as the text in which ids are stored. -/
def wireId? (data : Json) : Option String :=
  match data.get? Instance.idField with
  | some (.string s) => some s
  | some (.number (.whole i)) => some (toString i)
  | _ => none

/-- Whether data may be about an object: two ids must not differ. -/
def sameIdentity (o : Instance) (data : Json) : Bool :=
  match wireId? data, o.id? with
  | some incoming, some own => own = incoming
  | _, _ => true

/-- The object type of data for an abstract type. -/
def concreteType (graph : TypeGraph) (typeName : String) (data : Json) : Except PatchError String :=
  match (data.get? typeNameField).bind Json.string? with
  | some name =>
      if (graph.get? typeName).any (·.isPossibleType name) then .ok name
      else .error (.discriminator typeName (some name))
  | none => .error (.discriminator typeName none)

/-- The object type of data for an element of a list. -/
def concreteElement (graph : TypeGraph) (element : String) (data : Json) : Except PatchError String :=
  match data with
  | .object _ =>
      if (graph.get? element).any (·.kind.isAbstract) then concreteType graph element data else .ok element
  | _ => .error (.expectedObject element)

/-- Data for an element of a list, with the writer of that data. -/
structure Entry where
  data : Json
  write : Writer

/-- What became of a list. -/
structure Reconciliation where
  /-- New positions of elements that were not there. -/
  inserted : List Nat
  /-- Old positions of elements that are gone. -/
  removed : List Nat
  /-- Old and new positions of elements that moved. -/
  moved : List (Nat × Nat)
  /-- New positions of elements that were there and have changed fields. -/
  updated : List Nat
  deriving DecidableEq, Repr

/-- Whether the same elements stand in the same order. -/
def Reconciliation.isUnchanged (r : Reconciliation) : Bool :=
  r.inserted.isEmpty && r.removed.isEmpty && r.moved.isEmpty

/-- The elements of a list that have ids. -/
def elementIds (h : Heap) (list : ObjectList) : List (String × ObjectId) :=
  if list.keyed then list.items.filterMap fun o => (h.object o).id?.map (·, o) else []

/-- The element that an entry is about. In a keyed list it is the first one with the id of the entry, as
long as no entry before had that id, and for an entry without id the one at the same position, if that
has no id either. In any other list the position decides. The object type must always agree. -/
def matchElement (h : Heap) (list : ObjectList) (byId : List (String × ObjectId)) (position : Nat)
    (concrete : String) (data : Json) : Option ObjectId :=
  let candidate :=
    if list.keyed then
      match wireId? data with
      | some id => byId.lookup id
      | none => list.items[position]?.filter fun o => (h.object o).id?.isNone
    else list.items[position]?
  candidate.filter fun o => (h.object o).typeName = concrete

/-- The elements that are still to be had by their ids after an entry. -/
def afterEntry (data : Json) (byId : List (String × ObjectId)) : List (String × ObjectId) :=
  match wireId? data with
  | some id => byId.filter (·.1 ≠ id)
  | none => byId

/-- The elements for the entries of a list. -/
structure Placed where
  items : List ObjectId
  /-- Whether an element changed, for elements in opposite order. -/
  changed : List (ObjectId × Bool)
  /-- Why the entries end early. -/
  error : Option PatchError

/-- Writes entries from a position on. -/
def placeEntries (graph : TypeGraph) (list : ObjectList) (position : Nat)
    (byId : List (String × ObjectId)) : List Entry → StateM Progress Placed
  | [] => return ⟨[], [], none⟩
  | entry :: rest => do
      match concreteElement graph list.elementType entry.data with
      | .error e => return ⟨[], [], some e⟩
      | .ok concrete =>
          let o ← match matchElement (← get).heap list byId position concrete entry.data with
            | some o => pure o
            | none => createObject concrete
          match ← (entry.write o).run with
          | .error e => return ⟨[], [], some e⟩
          | .ok changes =>
              let later ← placeEntries graph list (position + 1) (afterEntry entry.data byId) rest
              return ⟨o :: later.items, later.changed ++ [(o, !changes.isEmpty)], later.error⟩

/-- Gives a list new contents and notes the changes. -/
def setListItems (l : ListId) (items : List ObjectId) : StateM Progress (Reordering ObjectId) :=
  modifyGet fun p =>
    let (reordering, h) := p.heap.setItems l items
    (reordering, ⟨h, if reordering.changes.isEmpty then p.pending
      else p.pending ++ [.list l reordering.changes]⟩)

/-- Makes a list what entries say. After an error the elements that were not reached stay. -/
def reconcileEntries (graph : TypeGraph) (l : ListId) (entries : List Entry) : Patching Reconciliation := do
  let h := (← get).heap
  let list := h.list l
  let placed ← placeEntries graph list 0 (elementIds h list) entries
  let items := match placed.error with
    | none => placed.items
    | some _ => placed.items ++ list.items.filter fun o => o ∉ placed.items
  let reordering ← setListItems l items
  match placed.error with
  | some e => throw e
  | none =>
      let updated := (List.range items.length).filter fun i => items[i]?.any fun o =>
        o ∈ list.items && (placed.changed.lookup o).getD false
      return ⟨reordering.inserted, reordering.removed, reordering.moved, updated⟩

/-- Writes the object in a field if data is about it, and a new one otherwise; tells whether the field
changed. -/
def patchNested (o : ObjectId) (field concrete : String) (data : Json) (write : Writer) : Patching Bool := do
  let h := (← get).heap
  let existing := ((h.object o).object? field).filter fun x =>
    (h.object x).typeName = concrete && sameIdentity (h.object x) data
  match existing with
  | some x =>
      let _ ← write x
      return false
  | none =>
      let fresh ← createObject concrete
      let changed ← writeSlot o field (.object fresh)
      let _ ← write fresh
      return changed

/-- Writes the list in a field, a new one if there is none; tells whether the field changed. -/
def patchList (graph : TypeGraph) (o : ObjectId) (field element : String) (keyed : Bool)
    (entries : List Entry) : Patching Bool := do
  match ((← get).heap.object o).list? field with
  | some l =>
      let _ ← reconcileEntries graph l entries
      return false
  | none =>
      let l ← createList element keyed
      let changed ← writeSlot o field (.list l)
      let _ ← reconcileEntries graph l entries
      return changed

/-- The slot of a leaf. -/
def leafSlot (leaf : Leaf) (nullable : Bool) : Json → Slot
  | .null => if nullable then .null else .scalar leaf.default
  | data => .scalar (leaf.convertOrDefault data)

/-- The value of an item in a list of leaves. -/
def itemValue (leaf : Leaf) (itemNullable : Bool) : Json → ScalarValue
  | .null => if itemNullable then .null else leaf.default
  | data => leaf.convertOrDefault data

/-- Writes a field with its data. `write` writes that data into an object, and `entries` are the items
of the data, each with its writer. -/
def patchField (graph : TypeGraph) (o : ObjectId) (typeName : String) (field : FieldPlan) (data : Json)
    (write : Writer) (entries : List Entry) : Patching Bool :=
  let name := field.wireName
  match field.kind, data with
  | .leaf leaf, data => writeSlot o name (leafSlot leaf field.nullable data)
  | .leafList _ _, .null => writeSlot o name (if field.nullable then .null else .scalars [])
  | .leafList leaf itemNullable, .array items =>
      writeSlot o name (.scalars (items.map (itemValue leaf itemNullable)))
  | .leafList _ _, _ => throw (.invalidData typeName name .list)
  | _, .null =>
      if field.nullable then writeSlot o name .null else throw (.nullViolation typeName name)
  | .object target, .object _ => patchNested o name target data write
  | .abstract target, .object _ => do
      let concrete ← concreteType graph target data
      patchNested o name concrete data write
  | .object _, _ | .abstract _, _ => throw (.invalidData typeName name .object)
  | .objectList element _ keyed, .array _ => patchList graph o name element keyed entries
  | .objectList _ _ _, _ => throw (.invalidData typeName name .list)

/-- The items of data, each with the writer that `inner` has for it. -/
def entriesOf (data : Json) (inner : (item : Json) → sizeOf item < sizeOf data → Writer) : List Entry :=
  match data with
  | .array items => items.attach.map fun e => ⟨e.1, inner e.1 (Json.sizeOf_item_lt e.2)⟩
  | _ => []

/-- Writes those of some fields that data has; `inner` writes what is inside of the data. -/
def patchFields (graph : TypeGraph) (o : ObjectId) (typeName : String) (data : Json)
    (inner : (d : Json) → sizeOf d < sizeOf data → Writer) : List FieldPlan → Patching (List String)
  | [] => return []
  | field :: rest => do
      match h : data.get? field.wireName with
      | none => patchFields graph o typeName data inner rest
      | some incoming =>
          have smaller := Json.sizeOf_get?_lt h
          let changed ← patchField graph o typeName field incoming (inner incoming smaller)
            (entriesOf incoming fun item lt => inner item (Nat.lt_trans lt smaller))
          let later ← patchFields graph o typeName data inner rest
          return if changed then field.wireName :: later else later

/-- Writes an object with data; `inner` writes what is inside of the data. -/
def patchWith (plans : Plans) (data : Json) (inner : (d : Json) → sizeOf d < sizeOf data → Writer) :
    Writer := fun o => do
  let typeName := ((← get).heap.object o).typeName
  match plans.get? typeName with
  | none => throw (.unknownType typeName)
  | some plan =>
      match data with
      | .object _ => patchFields plans.graph o typeName data inner plan.fields
      | _ => throw (.expectedObject typeName)

/-- Writes an object with data. -/
def patch (plans : Plans) (data : Json) : Writer :=
  patchWith plans data fun inner _ => patch plans inner
termination_by sizeOf data

/-- Makes a list what data says. -/
def reconcile (plans : Plans) (l : ListId) (data : List Json) : Patching Reconciliation :=
  reconcileEntries plans.graph l (data.map fun e => ⟨e, patch plans e⟩)

end GraphClient.Live
