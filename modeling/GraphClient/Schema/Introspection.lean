import GraphClient.Json.Reader
import GraphClient.Json.Record

/-! What a server tells about its schema: the result of the introspection query. It names its types, and
refers to them by name, with lists and non-null marks written around the name. Everything that a
compact result leaves out counts as empty. -/

namespace GraphClient.Introspection

/-- What a declaration or a reference says it is. -/
inductive Kind
  | scalar
  | object
  | interface
  | union
  | enum
  | inputObject
  | list
  | nonNull
  deriving DecidableEq, Repr

namespace Kind

def all : List Kind := [scalar, object, interface, union, enum, inputObject, list, nonNull]

/-- The name in an introspection result. -/
def wireName : Kind → String
  | scalar => "SCALAR"
  | object => "OBJECT"
  | interface => "INTERFACE"
  | union => "UNION"
  | enum => "ENUM"
  | inputObject => "INPUT_OBJECT"
  | list => "LIST"
  | nonNull => "NON_NULL"

/-- The name in a message. -/
def label : Kind → String
  | scalar => "Scalar"
  | object => "Object"
  | interface => "Interface"
  | union => "Union"
  | enum => "Enum"
  | inputObject => "InputObject"
  | list => "List"
  | nonNull => "NonNull"

def ofName? (name : String) : Option Kind := all.find? fun k => k.wireName == name

/-- A kind is its name, or an object whose one member has that name and is null. -/
def read? : Json → Option Kind
  | .string name => ofName? name
  | .object [(name, .null)] => ofName? name
  | _ => none

end Kind

/-- A reference to a type: a name, or a wrapper around a reference. -/
inductive Reference
  | mk (kind : Kind) (name : Option String) (ofType : Option Reference)
  deriving Repr

namespace Reference

def kind : Reference → Kind
  | mk kind _ _ => kind

def name : Reference → Option String
  | mk _ name _ => name

def ofType : Reference → Option Reference
  | mk _ _ ofType => ofType

def fields : List String := ["kind", "name", "ofType"]

def read? (j : Json) : Option Reference := do
  if !j.isRecord fields then none
  let kind ← Json.needed Kind.read? (j.field? fields "kind")
  let name ← Json.optional Json.string? (j.field? fields "name")
  match _h : j.field? fields "ofType" with
  | none | some .null => return mk kind name none
  | some inner => return mk kind name (some (← read? inner))
termination_by sizeOf j
decreasing_by exact Json.sizeOf_field?_lt _h

end Reference

/-- An argument or a field of an input object. -/
structure InputValue where
  name : String
  description : Option String
  type : Reference
  default : Option String

def InputValue.fields : List String := ["name", "description", "type", "defaultValue"]

def InputValue.read? (j : Json) : Option InputValue := do
  guard (j.isRecord fields)
  return {
    name := ← Json.needed Json.string? (j.field? fields "name")
    description := ← Json.optional Json.string? (j.field? fields "description")
    type := ← Json.needed Reference.read? (j.field? fields "type")
    default := ← Json.optional Json.string? (j.field? fields "defaultValue") }

/-- A field of an object or an interface. -/
structure Field where
  name : String
  description : Option String
  arguments : List InputValue
  type : Reference
  deprecated : Bool
  deprecationReason : Option String

def Field.fields : List String :=
  ["name", "description", "args", "type", "isDeprecated", "deprecationReason"]

def Field.read? (j : Json) : Option Field := do
  guard (j.isRecord fields)
  return {
    name := ← Json.needed Json.string? (j.field? fields "name")
    description := ← Json.optional Json.string? (j.field? fields "description")
    arguments := ← Json.orDefault [] (Json.listOf InputValue.read?) (j.field? fields "args")
    type := ← Json.needed Reference.read? (j.field? fields "type")
    deprecated := ← Json.orDefault false Json.bool? (j.field? fields "isDeprecated")
    deprecationReason := ← Json.optional Json.string? (j.field? fields "deprecationReason") }

/-- A member of an enumeration. -/
structure EnumValue where
  name : String
  description : Option String
  deprecated : Bool
  deriving DecidableEq, Repr

def EnumValue.fields : List String := ["name", "description", "isDeprecated"]

def EnumValue.read? (j : Json) : Option EnumValue := do
  guard (j.isRecord fields)
  return {
    name := ← Json.needed Json.string? (j.field? fields "name")
    description := ← Json.optional Json.string? (j.field? fields "description")
    deprecated := ← Json.orDefault false Json.bool? (j.field? fields "isDeprecated") }

/-- A type that the schema declares. -/
structure Declaration where
  kind : Kind
  name : Option String
  description : Option String
  fields : Option (List Field)
  interfaces : Option (List Reference)
  possibleTypes : Option (List Reference)
  enumValues : Option (List EnumValue)
  inputFields : Option (List InputValue)

/-- A declaration that says nothing but its kind and name. -/
def Declaration.bare (kind : Kind) (name : String) : Declaration :=
  ⟨kind, some name, none, none, none, none, none, none⟩

def Declaration.wireFields : List String :=
  ["kind", "name", "description", "fields", "interfaces", "possibleTypes", "enumValues", "inputFields"]

def Declaration.read? (j : Json) : Option Declaration := do
  guard (j.isRecord wireFields)
  return {
    kind := ← Json.needed Kind.read? (j.field? wireFields "kind")
    name := ← Json.optional Json.string? (j.field? wireFields "name")
    description := ← Json.optional Json.string? (j.field? wireFields "description")
    fields := ← Json.optional (Json.listOf Field.read?) (j.field? wireFields "fields")
    interfaces := ← Json.optional (Json.listOf Reference.read?) (j.field? wireFields "interfaces")
    possibleTypes := ← Json.optional (Json.listOf Reference.read?) (j.field? wireFields "possibleTypes")
    enumValues := ← Json.optional (Json.listOf EnumValue.read?) (j.field? wireFields "enumValues")
    inputFields := ← Json.optional (Json.listOf InputValue.read?) (j.field? wireFields "inputFields") }

/-- The name of a root type, which stands alone in its record. -/
def readRoot? (j : Json) : Option String := do
  guard (j.isRecord ["name"])
  Json.needed Json.string? (j.field? ["name"] "name")

/-- A schema as a server describes it. -/
structure Schema where
  query : Option String
  mutation : Option String
  subscription : Option String
  types : List Declaration

def Schema.fields : List String := ["queryType", "mutationType", "subscriptionType", "types"]

def Schema.read? (j : Json) : Option Schema := do
  guard (j.isRecord fields)
  return {
    query := ← Json.optional readRoot? (j.field? fields "queryType")
    mutation := ← Json.optional readRoot? (j.field? fields "mutationType")
    subscription := ← Json.optional readRoot? (j.field? fields "subscriptionType")
    types := ← Json.orDefault [] (Json.listOf Declaration.read?) (j.field? fields "types") }

/-- Why a text is no introspection result. -/
inductive Fault
  /-- It is no JSON, or of another shape. -/
  | malformed
  /-- The schema is not where it should be. -/
  | missing
  deriving DecidableEq, Repr

/-- The schema object of a result: directly in it, or in the `data` of a whole response. -/
def schemaObject? (root : Json) : Option Json :=
  match ((root.get? "data").getD root).get? "__schema" with
  | some (.object members) => some (.object members)
  | _ => none

/-- Reads an introspection result. -/
def parse (text : String) : Except Fault Schema :=
  match Json.parse? text with
  | none => .error .malformed
  | some root =>
      match schemaObject? root with
      | none => .error .missing
      | some object =>
          match Schema.read? object with
          | some schema => .ok schema
          | none => .error .malformed

end GraphClient.Introspection
