import GraphClient.Arena
import GraphClient.Live.Reorder
import GraphClient.Scalar.Value
import GraphClient.Table

/-! The objects and lists of a client. Both are known by numbers, so that an object stays the same one
whatever its fields become, and objects may refer to each other in any way. A field that was never
written and one that holds null are the same to a writer. -/

namespace GraphClient.Live

/-- The number of an object. -/
structure ObjectId where
  number : Nat
  deriving DecidableEq, Repr, Inhabited

/-- The number of a list of objects. -/
structure ListId where
  number : Nat
  deriving DecidableEq, Repr, Inhabited

/-- What a field holds. -/
inductive Slot
  | null
  | scalar (value : ScalarValue)
  /-- A list of leaves, in which null items are null values. -/
  | scalars (values : List ScalarValue)
  | object (id : ObjectId)
  | list (id : ListId)
  deriving DecidableEq, Repr

/-- An object. -/
structure Instance where
  typeName : String
  /-- By wire name, in the order in which they were first written. -/
  fields : Table Slot
  /-- The list that the object was put into last, if it was not taken out of it. -/
  owner : Option ListId
  deriving Repr

instance : Inhabited Instance := ⟨"", .empty, none⟩

namespace Instance

/-- The field that holds the id of an object. -/
def idField : String := "id"

def get? (o : Instance) (field : String) : Option Slot := o.fields.get? field

/-- The text that tells the object apart from others of its type. -/
def id? (o : Instance) : Option String :=
  match o.get? idField with
  | some (.scalar (.string s)) => some s
  | _ => none

def scalar? (o : Instance) (field : String) : Option ScalarValue :=
  match o.get? field with
  | some (.scalar v) => some v
  | _ => none

def scalars? (o : Instance) (field : String) : Option (List ScalarValue) :=
  match o.get? field with
  | some (.scalars vs) => some vs
  | _ => none

def object? (o : Instance) (field : String) : Option ObjectId :=
  match o.get? field with
  | some (.object id) => some id
  | _ => none

def list? (o : Instance) (field : String) : Option ListId :=
  match o.get? field with
  | some (.list id) => some id
  | _ => none

end Instance

/-- A list of objects. -/
structure ObjectList where
  elementType : String
  /-- Whether data is matched to elements by their ids, or else by position. -/
  keyed : Bool
  items : List ObjectId
  deriving Repr

instance : Inhabited ObjectList := ⟨"", false, []⟩

/-- All objects and lists. -/
structure Heap where
  objects : Arena Instance
  lists : Arena ObjectList

namespace Heap

def empty : Heap := ⟨.empty, .empty⟩

instance : Inhabited Heap := ⟨empty⟩

def object (h : Heap) (o : ObjectId) : Instance := h.objects.get o.number

def list (h : Heap) (l : ListId) : ObjectList := h.lists.get l.number

def modifyObject (h : Heap) (o : ObjectId) (change : Instance → Instance) : Heap :=
  { h with objects := h.objects.modify o.number change }

def modifyList (h : Heap) (l : ListId) (change : ObjectList → ObjectList) : Heap :=
  { h with lists := h.lists.modify l.number change }

/-- A new object without fields. -/
def newObject (h : Heap) (typeName : String) : ObjectId × Heap :=
  (⟨h.objects.size⟩, { h with objects := h.objects.push ⟨typeName, .empty, none⟩ })

/-- A new list without elements. -/
def newList (h : Heap) (elementType : String) (keyed : Bool) : ListId × Heap :=
  (⟨h.lists.size⟩, { h with lists := h.lists.push ⟨elementType, keyed, []⟩ })

/-- Whether writing a slot would change a field. -/
def differs (h : Heap) (o : ObjectId) (field : String) (slot : Slot) : Bool :=
  ((h.object o).get? field).getD .null ≠ slot

/-- Writes a field, if that changes it. -/
def write (h : Heap) (o : ObjectId) (field : String) (slot : Slot) : Heap :=
  if h.differs o field slot then
    h.modifyObject o fun i => { i with fields := i.fields.insert field slot }
  else h

/-- The objects in a slot. -/
def slotObjects (h : Heap) : Slot → List ObjectId
  | .object o => [o]
  | .list l => (h.list l).items
  | _ => []

/-- The objects in the fields of an object, in order. -/
def children (h : Heap) (o : ObjectId) : List ObjectId := (h.object o).fields.values.flatMap h.slotObjects

/-- Visits an object and all that it leads to, unless it is among those that were visited before. A way
without repetition is no longer than there are objects, so that `depth` need not be more. -/
def visit (h : Heap) (depth : Nat) (visited : List ObjectId) (o : ObjectId) : List ObjectId :=
  match depth with
  | 0 => visited
  | depth + 1 =>
      if o ∈ visited then visited else (h.children o).foldl (h.visit depth) (visited ++ [o])

/-- An object and all that it leads to, each once: first the object, then the way through each of its
fields. -/
def reachable (h : Heap) (o : ObjectId) : List ObjectId := h.visit (h.objects.size + 1) [] o

/-- Takes the owner off an object, if it is this list. -/
def clearOwner (h : Heap) (l : ListId) (o : ObjectId) : Heap :=
  h.modifyObject o fun i => if i.owner = some l then { i with owner := none } else i

def setOwner (h : Heap) (l : ListId) (o : ObjectId) : Heap :=
  h.modifyObject o fun i => { i with owner := some l }

/-- Gives a list new contents, with what that changes. -/
def setItems (h : Heap) (l : ListId) (items : List ObjectId) : Reordering ObjectId × Heap :=
  let old := (h.list l).items
  let reordering := reorder old items
  let gone := reordering.removed.filterMap fun i => old[i]?
  let h := gone.foldl (fun h o => h.clearOwner l o) h
  let h := items.foldl (fun h o => h.setOwner l o) h
  (reordering, h.modifyList l fun s => { s with items := items })

end Heap

end GraphClient.Live
