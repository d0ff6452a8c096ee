import GraphClient.Schema.TypeGraph
import GraphClient.Scalar.Registry

/-! How the fields of an object are stored, worked out from the schema and the registry before any data
comes. Every object type has a plan with its fields in the order of the schema. A list of lists cannot
be stored, so such a field is left out and data for it is passed over. -/

namespace GraphClient.Live

/-- What the values of a leaf are. -/
inductive Leaf
  | scalar (converter : Converter)
  | enum (typeName : String) (members : List String)
  deriving DecidableEq, Repr

/-- Why a wire value is refused by a leaf. -/
inductive LeafError
  | scalar (error : ScalarError)
  /-- The value is not the name of a member. -/
  | noMember (typeName : String) (value : Json)

/-- The message for a refused value, if there is one. -/
def LeafError.message? : LeafError → Option String
  | scalar error => error.message?
  | noMember typeName value => some (value.text ++ " is not a value of enum " ++ typeName)

namespace Leaf

/-- A short text for the leaf. -/
def label : Leaf → String
  | scalar c => "Scalar(" ++ c.name ++ ")"
  | enum typeName _ => "Enum(" ++ typeName ++ ")"

/-- The value of a wire value that is not null. -/
def convert (leaf : Leaf) (value : Json) : Except LeafError ScalarValue :=
  match leaf with
  | scalar c => (c.read value).mapError .scalar
  | enum typeName members =>
      match value with
      | .string s => if s ∈ members then .ok (.enum s) else .error (.noMember typeName value)
      | _ => .error (.noMember typeName value)

/-- The value that stands in for a missing or refused one: the first member of an enumeration. -/
def default : Leaf → ScalarValue
  | scalar c => c.default
  | enum _ [] => .null
  | enum _ (m :: _) => .enum m

/-- The value of a wire value that is not null, refused ones replaced. -/
def convertOrDefault (leaf : Leaf) (value : Json) : ScalarValue :=
  match leaf.convert value with
  | .ok v => v
  | .error _ => leaf.default

end Leaf

/-- What a field holds. -/
inductive FieldKind
  | leaf (leaf : Leaf)
  | leafList (leaf : Leaf) (itemNullable : Bool)
  /-- An object of one type. -/
  | object (typeName : String)
  /-- An object of one of the types of an interface or a union. -/
  | abstract (typeName : String)
  | objectList (element : String) (isAbstract keyed : Bool)
  deriving DecidableEq, Repr

/-- How a field is stored. -/
structure FieldPlan where
  /-- The name in generated code. -/
  name : String
  wireName : String
  kind : FieldKind
  nullable : Bool
  isId : Bool
  deriving DecidableEq, Repr

/-- How an object type is stored. -/
structure TypePlan where
  name : String
  /-- In the order of the schema. -/
  fields : List FieldPlan
  deriving DecidableEq, Repr

namespace TypePlan

def field? (t : TypePlan) (wireName : String) : Option FieldPlan :=
  t.fields.find? fun f => f.wireName == wireName

def hasId (t : TypePlan) : Bool := t.fields.any (·.isId)

end TypePlan

/-- A field has a scalar type without a converter. -/
structure PlanError where
  typeName : String
  field : String
  scalar : String
  deriving DecidableEq, Repr

def PlanError.message (e : PlanError) : String :=
  e.typeName ++ "." ++ e.field ++ ": " ++ ScalarError.unknownMessage e.scalar

/-- The leaf under a name that is no composite type; no answer for a scalar without a converter. -/
def leafOf? (graph : TypeGraph) (scalars : Registry) (name : String) : Option Leaf :=
  match graph.get? name with
  | some t =>
      if t.kind = .enum then some (.enum t.name (t.members.map (·.name)))
      else (scalars.find? name).map .scalar
  | none => (scalars.find? name).map .scalar

/-- How a field of a type is stored; nothing for a list of lists. -/
def planField (graph : TypeGraph) (scalars : Registry) (typeName : String) (field : FieldDefinition) :
    Except PlanError (Option FieldPlan) :=
  let name := field.type.typeName
  let kind := ((graph.get? name).map (·.kind)).getD .customScalar
  let leaf : Except PlanError Leaf := match leafOf? graph scalars name with
    | some leaf => .ok leaf
    | none => .error ⟨typeName, field.wireName, name⟩
  let plan (kind : FieldKind) : Option FieldPlan :=
    some ⟨field.name, field.wireName, kind, field.type.nullable, field.isId⟩
  match field.type.depth, kind.isComposite with
  | 0, false => leaf.map fun l => plan (.leaf l)
  | 0, true => .ok (plan (if kind.isAbstract then .abstract name else .object name))
  | 1, false => leaf.map fun l => plan (.leafList l (field.type.item?.any (·.nullable)))
  | 1, true => .ok (plan (.objectList name kind.isAbstract (graph.isKeyed name)))
  | _, _ => .ok none

/-- How an object type is stored. -/
def planType (graph : TypeGraph) (scalars : Registry) (t : TypeDefinition) : Except PlanError TypePlan := do
  let fields ← t.fields.values.mapM (planField graph scalars t.name)
  return ⟨t.name, fields.filterMap id⟩

/-- The plans of all object types of a schema, by name. -/
structure Plans where
  graph : TypeGraph
  scalars : Registry
  types : Table TypePlan

namespace Plans

def build (graph : TypeGraph) (scalars : Registry) : Except PlanError Plans := do
  let types ← (graph.ofKind .object).mapM (planType graph scalars)
  return ⟨graph, scalars, .ofList (types.map fun t => (t.name, t))⟩

def get? (p : Plans) (typeName : String) : Option TypePlan := p.types.get? typeName

end Plans

end GraphClient.Live
