import GraphClient.Document.Tree
import GraphClient.Table

/-! The resolved schema. Types refer to each other by name only, so a schema in which types refer to
themselves needs no special care. -/

namespace GraphClient

/-- What a type is. The custom scalars are those that not every schema has. -/
inductive TypeKind
  | object
  | interface
  | union
  | enum
  | scalar
  | customScalar
  deriving DecidableEq, Repr

namespace TypeKind

def all : List TypeKind := [object, interface, union, enum, scalar, customScalar]

/-- Whether fields are selected on values of the type. -/
def isComposite : TypeKind → Bool
  | object | interface | union => true
  | _ => false

/-- Whether values of the type are of one of several object types. -/
def isAbstract : TypeKind → Bool
  | interface | union => true
  | _ => false

def isLeaf (kind : TypeKind) : Bool := !kind.isComposite

def label : TypeKind → String
  | object => "OBJECT"
  | interface => "INTERFACE"
  | union => "UNION"
  | enum => "ENUM"
  | scalar => "SCALAR"
  | customScalar => "CUSTOM_SCALAR"

end TypeKind

/-- The scalars of every schema. -/
def builtinScalars : List String := ["String", "Int", "Float", "Boolean", "ID"]

/-- The type of a field. Every level says for itself whether it may be null. -/
inductive TypeRef
  | named (nullable : Bool) (name : String)
  | list (nullable : Bool) (item : TypeRef)
  deriving DecidableEq, Repr

namespace TypeRef

def nullable : TypeRef → Bool
  | named nullable _ | list nullable _ => nullable

/-- The same type without null at its outermost level. -/
def nonNull : TypeRef → TypeRef
  | named _ name => named false name
  | list _ item => list false item

/-- The name inside all lists. -/
def typeName : TypeRef → String
  | named _ name => name
  | list _ item => item.typeName

def isList : TypeRef → Bool
  | named _ _ => false
  | list _ _ => true

def item? : TypeRef → Option TypeRef
  | named _ _ => none
  | list _ item => some item

/-- The number of lists around the name. -/
def depth : TypeRef → Nat
  | named _ _ => 0
  | list _ item => item.depth + 1

/-- Whether null is admitted, for each level from the outside in. -/
def nullability : TypeRef → List Bool
  | named nullable _ => [nullable]
  | list nullable item => nullable :: item.nullability

/-- The type in the notation of queries. -/
def text : TypeRef → String
  | named nullable name => name ++ (if nullable then "" else "!")
  | list nullable item => "[" ++ item.text ++ "]" ++ (if nullable then "" else "!")

@[simp] theorem length_nullability (t : TypeRef) : t.nullability.length = t.depth + 1 := by
  induction t with
  | named => rfl
  | list _ item ih => simp [nullability, depth, ih]

@[simp] theorem typeName_nonNull (t : TypeRef) : t.nonNull.typeName = t.typeName := by
  cases t <;> rfl

end TypeRef

/-- A field of an object or an interface. -/
structure FieldDefinition where
  /-- The name in generated code. -/
  name : String
  /-- The name in the schema and in responses. -/
  wireName : String
  type : TypeRef
  /-- Whether the field tells the objects of its type apart. -/
  isId : Bool
  description : Option String
  deprecated : Bool
  deriving DecidableEq, Repr

/-- A member of an enumeration. -/
structure EnumMember where
  name : String
  description : Option String
  deprecated : Bool
  deriving DecidableEq, Repr

/-- A named type. -/
structure TypeDefinition where
  name : String
  kind : TypeKind
  description : Option String
  /-- By wire name, in the order of the schema. -/
  fields : Table FieldDefinition
  /-- The interfaces of an object. -/
  interfaces : List String
  /-- The object types of an interface or a union. -/
  possibleTypes : List String
  members : List EnumMember

namespace TypeDefinition

def field? (t : TypeDefinition) (wireName : String) : Option FieldDefinition := t.fields.get? wireName

def idField? (t : TypeDefinition) : Option FieldDefinition := t.fields.values.find? (·.isId)

def hasId (t : TypeDefinition) : Bool := t.idField?.isSome

def isPossibleType (t : TypeDefinition) (name : String) : Bool := t.possibleTypes.contains name

end TypeDefinition

/-- A schema whose names are resolved. -/
structure TypeGraph where
  types : Table TypeDefinition
  queryType : String
  mutationType : Option String
  subscriptionType : Option String

namespace TypeGraph

def get? (g : TypeGraph) (name : String) : Option TypeDefinition := g.types.get? name

def contains (g : TypeGraph) (name : String) : Bool := g.types.contains name

/-- All types in the order of the schema. -/
def definitions (g : TypeGraph) : List TypeDefinition := g.types.values

def ofKind (g : TypeGraph) (kind : TypeKind) : List TypeDefinition :=
  g.definitions.filter (·.kind = kind)

/-- The type that operations of a kind select from. -/
def rootType? (g : TypeGraph) : OperationKind → Option String
  | .query => some g.queryType
  | .mutation => g.mutationType
  | .subscription => g.subscriptionType

/-- Whether objects of a type can be told apart by an id: those of an abstract type can if all its
object types have one. -/
def isKeyed (g : TypeGraph) (name : String) : Bool :=
  match g.get? name with
  | none => false
  | some t =>
      match t.kind with
      | .object => t.hasId
      | .interface | .union =>
          !t.possibleTypes.isEmpty && t.possibleTypes.all fun p => (g.get? p).any TypeDefinition.hasId
      | _ => false

/-- The names that nothing is declared under, each with the place that refers to it. -/
def danglingReferences (g : TypeGraph) : List (String × String) :=
  g.definitions.flatMap fun t =>
    (t.fields.values.filterMap fun f =>
      if g.contains f.type.typeName then none else some (t.name ++ "." ++ f.wireName, f.type.typeName)) ++
    ((t.interfaces ++ t.possibleTypes).filterMap fun n => if g.contains n then none else some (t.name, n))

end TypeGraph

end GraphClient
