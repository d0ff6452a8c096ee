import GraphClient.Schema.Introspection
import GraphClient.Schema.TypeGraph
import GraphClient.Text.Casing

/-! From an introspection result to a type graph. First every type is declared by its name and kind;
then what it refers to is looked up among all declarations. So neither the order of the types nor a
cycle among them makes a difference. -/

namespace GraphClient

/-- Why a schema cannot be used. -/
inductive SchemaError
  /-- Nothing is declared under a name. -/
  | unresolved (location target : String)
  | unsupported (location reason : String)
  | duplicate (name : String)
  | introspection (fault : Introspection.Fault)
  deriving DecidableEq, Repr

namespace SchemaError

/-- The message, if the fault can be told. -/
def message? : SchemaError → Option String
  | unresolved location target => some ("`" ++ location ++ "` references unknown type `" ++ target ++ "`")
  | unsupported location reason => some ("`" ++ location ++ "` is not supported: " ++ reason)
  | duplicate name => some ("type `" ++ name ++ "` is declared more than once")
  | introspection .missing => some "invalid introspection result: missing `__schema` object"
  | introspection .malformed => none

/-- The code under which an error is documented. -/
def code : SchemaError → String
  | unresolved _ _ => "livegql::schema::resolution"
  | unsupported _ _ => "livegql::schema::unsupported_type"
  | duplicate _ => "livegql::schema::duplicate_type"
  | introspection _ => "livegql::schema::introspection"

/-- What to do about an error. -/
def help? : SchemaError → Option String
  | introspection _ =>
      some "expected `\x7b\"__schema\": ...\x7d` or `\x7b\"data\": \x7b\"__schema\": ...\x7d\x7d`"
  | _ => none

end SchemaError

namespace Schema

open Introspection (Declaration Reference)

/-- What is known of the types before any reference is looked up: the kind and the declaration of each
output type, and the names of the input objects. -/
structure Declared where
  types : Table (TypeKind × Declaration)
  inputs : List String

namespace Declared

def empty : Declared := ⟨.empty, []⟩

def kind? (d : Declared) (name : String) : Option TypeKind := (d.types.get? name).map (·.1)

def contains (d : Declared) (name : String) : Bool := d.types.contains name

/-- The kind of an output type; none for an input object and for a wrapper. -/
def outputKind? (name : String) : Introspection.Kind → Option TypeKind
  | .scalar => some (if name ∈ builtinScalars then .scalar else .customScalar)
  | .object => some .object
  | .interface => some .interface
  | .union => some .union
  | .enum => some .enum
  | .inputObject | .list | .nonNull => none

/-- Adds one declaration. The types of introspection itself are left out. -/
def add (d : Declared) (t : Declaration) : Except SchemaError Declared :=
  match t.name with
  | none => .error (.unsupported (t.kind.label ++ " type") "named type without a name")
  | some name =>
      if "__".toList.isPrefixOf name.toList then .ok d
      else if d.contains name || d.inputs.contains name then .error (.duplicate name)
      else match outputKind? name t.kind with
        | some kind => .ok { d with types := d.types.insert name (kind, t) }
        | none =>
            if t.kind = .inputObject then .ok { d with inputs := d.inputs ++ [name] }
            else .error (.unsupported name "wrapper kind used as a named type")

/-- Declares a built-in scalar that the schema left out. -/
def addBuiltin (d : Declared) (name : String) : Declared :=
  if d.contains name then d
  else { d with types := d.types.insert name (.scalar, .bare .scalar name) }

end Declared

def declare (schema : Introspection.Schema) : Except SchemaError Declared :=
  (schema.types.foldlM Declared.add Declared.empty).map fun d =>
    builtinScalars.foldl Declared.addBuiltin d

/-- The type that a reference means. A non-null mark belongs to what it stands around. -/
def resolveReference (d : Declared) (location : String) : Reference → Except SchemaError TypeRef
  | .mk .nonNull _ (some inner) => (resolveReference d location inner).map .nonNull
  | .mk .list _ (some inner) => (resolveReference d location inner).map (.list true)
  | .mk .nonNull _ none => .error (.unsupported location "NonNull wrapper without `ofType`")
  | .mk .list _ none => .error (.unsupported location "List wrapper without `ofType`")
  | .mk _ name _ =>
      let name := name.getD ""
      if d.inputs.contains name then
        .error (.unsupported location ("input object `" ++ name ++ "` used as an output type"))
      else if d.contains name then .ok (.named true name)
      else .error (.unresolved location name)

/-- A field. The field `id` of the type `ID` tells objects apart. -/
def resolveField (d : Declared) (typeName : String) (f : Introspection.Field) :
    Except SchemaError FieldDefinition :=
  (resolveReference d (typeName ++ "." ++ f.name) f.type).map fun type =>
    { name := Casing.snake f.name
      wireName := f.name
      type := type
      isId := f.name = "id" && !type.isList && type.typeName = "ID"
      description := f.description
      deprecated := f.deprecated }

/-- The fields by name; of two with one name the later one counts. -/
def resolveFields (d : Declared) (typeName : String) (t : Declaration) :
    Except SchemaError (Table FieldDefinition) :=
  ((t.fields.getD []).mapM (resolveField d typeName)).map fun fields =>
    .ofList (fields.map fun f => (f.wireName, f))

def resolveName (d : Declared) (typeName : String) (r : Reference) : Except SchemaError String :=
  let name := r.name.getD ""
  if d.contains name then .ok name else .error (.unresolved typeName name)

def resolveNames (d : Declared) (typeName : String) (rs : Option (List Reference)) :
    Except SchemaError (List String) :=
  (rs.getD []).mapM (resolveName d typeName)

/-- The object types of an abstract type. -/
def resolvePossibleTypes (d : Declared) (typeName : String) (t : Declaration) :
    Except SchemaError (List String) := do
  let names ← resolveNames d typeName t.possibleTypes
  match names.find? fun n => d.kind? n ≠ some .object with
  | some n => .error (.unsupported typeName ("possible type `" ++ n ++ "` is not an object type"))
  | none => return names

/-- A type with nothing but its name, kind, description and members. -/
def shell (name : String) (kind : TypeKind) (t : Declaration) : TypeDefinition :=
  { name := name
    kind := kind
    description := t.description
    fields := .empty
    interfaces := []
    possibleTypes := []
    members := (t.enumValues.getD []).map fun v => ⟨v.name, v.description, v.deprecated⟩ }

/-- A type with everything that it refers to looked up. -/
def resolveType (d : Declared) (name : String) (kind : TypeKind) (t : Declaration) :
    Except SchemaError TypeDefinition :=
  match kind with
  | .object => do
      let fields ← resolveFields d name t
      if fields.entries.isEmpty then .error (.unsupported name "object type has no fields")
      else
        let interfaces ← resolveNames d name t.interfaces
        return { shell name kind t with fields := fields, interfaces := interfaces }
  | .interface => do
      let fields ← resolveFields d name t
      let possible ← resolvePossibleTypes d name t
      return { shell name kind t with fields := fields, possibleTypes := possible }
  | .union => do
      let possible ← resolvePossibleTypes d name t
      return { shell name kind t with possibleTypes := possible }
  | .enum | .scalar | .customScalar => .ok (shell name kind t)

def resolveTypes (d : Declared) : Except SchemaError (Table TypeDefinition) :=
  (d.types.entries.mapM fun e => (resolveType d e.1 e.2.1 e.2.2).map (e.1, ·)).map (⟨·⟩)

/-- A root type, which has to be an object type. -/
def resolveRoot (d : Declared) (slot name : String) : Except SchemaError String :=
  match d.kind? name with
  | some .object => .ok name
  | some kind =>
      .error (.unsupported ("schema." ++ slot)
        ("root type `" ++ name ++ "` is " ++ kind.label ++ ", not OBJECT"))
  | none => .error (.unresolved ("schema." ++ slot) name)

/-- A root type that the schema may do without. -/
def resolveOptionalRoot (d : Declared) (slot : String) : Option String → Except SchemaError (Option String)
  | none => .ok none
  | some name => (resolveRoot d slot name).map some

end Schema

open Schema in
/-- The graph of a schema. The query type is called `Query` if the schema does not say otherwise. -/
def TypeGraph.build (schema : Introspection.Schema) : Except SchemaError TypeGraph := do
  let d ← declare schema
  let types ← resolveTypes d
  let query ← resolveRoot d "queryType" (schema.query.getD "Query")
  let mutation ← resolveOptionalRoot d "mutationType" schema.mutation
  let subscription ← resolveOptionalRoot d "subscriptionType" schema.subscription
  return ⟨types, query, mutation, subscription⟩

/-- The graph of an introspection result. -/
def TypeGraph.parse (text : String) : Except SchemaError TypeGraph := do
  let schema ← (Introspection.parse text).mapError .introspection
  build schema

end GraphClient
