import GraphClient.Bindings.Code
import GraphClient.Bindings.Names
import GraphClient.Operation.Selected
import GraphClient.Scalar.Registry

/-! The module that gives a program typed access to the objects of a schema. An enumeration becomes a
type with its members; an object type wraps an object of the store and has a getter, a setter and a
hook for every field; an interface or a union is a choice of wrappers; an operation becomes a handler
with its text. -/

namespace GraphClient.Bindings

open Code

/-- How a module is generated. -/
structure Options where
  /-- The first line of the module. -/
  moduleDoc : String
  /-- The path of the library that the module uses. -/
  runtime : String
  /-- Whether operations get handlers. -/
  operations : Bool
  deriving DecidableEq, Repr

def Options.default : Options := ⟨"Generated by livegql. Do not edit.", "livegql_runtime", true⟩

/-! Names of the prelude are written in full, so that no type of the schema can stand for them. -/

def optionOf (type : String) : String := "::core::option::Option<" ++ type ++ ">"

def vecOf (type : String) : String := "::std::vec::Vec<" ++ type ++ ">"

def resultOf (type error : String) : String := "::core::result::Result<" ++ type ++ ", " ++ error ++ ">"

def listOf (type : String) (nullable itemNullable : Bool) : String :=
  let list := vecOf (if itemNullable then optionOf type else type)
  if nullable then optionOf list else list

def quoted (text : String) : String := "\"" ++ text ++ "\""

/-- What code is generated from. -/
structure Source where
  graph : TypeGraph
  scalars : Registry

namespace Source

def kindOf (s : Source) (name : String) : TypeKind := ((s.graph.get? name).map (·.kind)).getD .customScalar

/-- The type of a leaf: the enumeration itself, or what its converter gives. -/
def leafType (s : Source) (name : String) : String :=
  if (s.graph.get? name).map (·.kind) = some .enum then name
  else match s.scalars.find? name with
    | some c => c.typeText
    | none => "rt::Value"

/-- The type that a getter gives; none for a list of lists. -/
def accessorType? (s : Source) : TypeRef → Option String
  | .named nullable name =>
      if (s.kindOf name).isComposite then some (optionOf name)
      else some (if nullable then optionOf (s.leafType name) else s.leafType name)
  | .list nullable (.named itemNullable name) =>
      if (s.kindOf name).isComposite then some (vecOf name)
      else some (listOf (s.leafType name) nullable itemNullable)
  | .list _ (.list _ _) => none

end Source

def header (options : Options) : List Code :=
  [line ("//! " ++ options.moduleDoc),
    blank,
    line "#![allow(clippy::all, dead_code, deprecated, non_camel_case_types)]",
    blank,
    line ("use " ++ options.runtime ++ " as rt;")]

def enumCode (t : TypeDefinition) : List Code :=
  let wireNames := t.members.map (·.name)
  let members := (memberNames wireNames).zip wireNames
  [blank] ++ docs t.description ++
  [line "#[derive(Debug, Clone, Copy, PartialEq, Eq, Hash)]",
    .type "enum" t.name (members.map fun m => line (m.1 ++ ",")),
    blank,
    block ("impl " ++ t.name)
      [doc "Wire name of the value.",
        block "pub const fn as_str(self) -> &'static str"
          [block "match self" (members.map fun m => line ("Self::" ++ m.1 ++ " => " ++ quoted m.2 ++ ","))],
        blank,
        doc "Parses a wire name.",
        method "parse" ("(value: &str) -> " ++ optionOf "Self")
          [block "match value"
            ((members.map fun m => line (quoted m.2 ++ " => Some(Self::" ++ m.1 ++ "),")) ++
              [line "_ => None,"])]],
    blank,
    block ("impl rt::NativeScalar for " ++ t.name)
      [block ("fn from_value(value: &rt::Value) -> " ++ optionOf "Self")
          [line "value.as_str().and_then(Self::parse)"],
        blank,
        block "fn into_value(self) -> rt::Value" [line "rt::Value::Enum(self.as_str().to_string())"],
        blank,
        block "fn fallback() -> Self"
          [match members with
            | m :: _ => line ("Self::" ++ m.1)
            | [] => line "unreachable!(\"enum without values\")"]]]

/-- What stands before the methods of a field. -/
def fieldHead (field : FieldDefinition) : List Code :=
  docs field.description ++ if field.deprecated then [line "#[deprecated]"] else []

def leafMethods (field : FieldDefinition) (leaf : String) (nullable : Bool) : List Code :=
  let wire := quoted field.wireName
  if nullable then
    [method (getterName field) ("(&self) -> " ++ optionOf leaf)
        [line ("self.inner.scalar_as::<" ++ leaf ++ ">(" ++ wire ++ ")")],
      blank,
      method (setterName field) ("(&self, value: " ++ optionOf leaf ++ ")")
        [line ("self.inner.set_optional_scalar(" ++ wire ++ ", value);")]]
  else
    [method (getterName field) ("(&self) -> " ++ leaf)
        [line ("self.inner.scalar_or_fallback::<" ++ leaf ++ ">(" ++ wire ++ ")")],
      blank,
      method (setterName field) ("(&self, value: " ++ leaf ++ ")")
        [line ("self.inner.set_scalar(" ++ wire ++ ", value);")]]

def leafListMethods (field : FieldDefinition) (leaf : String) (nullable itemNullable : Bool) :
    List Code :=
  let wire := quoted field.wireName
  let list := listOf leaf nullable itemNullable
  let read := "self.inner.scalar_list_as::<" ++ leaf ++ ">(" ++ wire ++ ")" ++
    (if itemNullable then ""
      else ".map(|items| items.into_iter().map(|item| item.unwrap_or_else(<" ++ leaf ++
        " as rt::NativeScalar>::fallback)).collect())") ++
    (if nullable then "" else ".unwrap_or_default()")
  let value := match nullable, itemNullable with
    | true, true => "value"
    | true, false => "value.map(|items| items.into_iter().map(Some).collect())"
    | false, true => "Some(value)"
    | false, false => "Some(value.into_iter().map(Some).collect())"
  [method (getterName field) ("(&self) -> " ++ list) [line read],
    blank,
    method (setterName field) ("(&self, value: " ++ list ++ ")")
      [line ("self.inner.set_scalar_list(" ++ wire ++ ", " ++ value ++ ");")]]

def compositeMethods (field : FieldDefinition) (target : String) (isAbstract : Bool) : List Code :=
  let wire := quoted field.wireName
  let convert := if isAbstract then "and_then" else "map"
  [method (getterName field) ("(&self) -> " ++ optionOf target)
      [line ("self.inner.object(" ++ wire ++ ")." ++ convert ++ "(" ++ target ++ "::from_object)")],
    blank,
    method (setterName field) ("(&self, value: " ++ optionOf target ++ ")")
      [line ("self.inner.set_object(" ++ wire ++ ", value.map(" ++ target ++ "::into_object));")]]

def compositeListMethods (field : FieldDefinition) (target : String) (isAbstract keyed : Bool) :
    List Code :=
  let wire := quoted field.wireName
  let convert := if isAbstract then "filter_map" else "map"
  [method (getterName field) ("(&self) -> " ++ vecOf target)
      [line ("self.inner.list(" ++ wire ++ ").map(|list| list.to_vec().into_iter()." ++ convert ++ "(" ++
        target ++ "::from_object).collect()).unwrap_or_default()")],
    blank,
    doc "The live list, for structural change observers.",
    method (listName field) ("(&self) -> " ++ optionOf "rt::ReactiveList")
      [line ("self.inner.list(" ++ wire ++ ")")],
    blank,
    method (setterName field) ("(&self, value: " ++ vecOf target ++ ")")
      [line ("self.inner.set_object_list(" ++ wire ++ ", " ++ quoted target ++ ", " ++
        (if keyed then "true" else "false") ++ ", value.into_iter().map(" ++ target ++
        "::into_object).collect());")]]

def hookSignature : String :=
  "(&self, callback: impl ::core::ops::Fn(&Self) + 'static) -> rt::Subscription"

def hookMethod (field : FieldDefinition) : List Code :=
  [blank,
    method (hookName field) hookSignature
      [line ("self.inner.observe(" ++ quoted field.wireName ++
        ", move |object, _| callback(&Self::from_object(object.clone())))")]]

/-- The methods of a field; a list of lists has none. -/
def fieldCode (s : Source) (field : FieldDefinition) : List Code :=
  match field.type with
  | .named nullable name =>
      let kind := s.kindOf name
      [blank] ++ fieldHead field ++
        (if kind.isComposite then compositeMethods field name kind.isAbstract
          else leafMethods field (s.leafType name) nullable) ++ hookMethod field
  | .list nullable (.named itemNullable name) =>
      let kind := s.kindOf name
      [blank] ++ fieldHead field ++
        (if kind.isComposite then compositeListMethods field name kind.isAbstract (s.graph.isKeyed name)
          else leafListMethods field (s.leafType name) nullable itemNullable) ++ hookMethod field
  | .list _ (.list _ _) =>
      [blank,
        line ("// `" ++ field.wireName ++ ": " ++ field.type.text ++ "` is not supported (nested list).")]

/-- The block that makes a new wrapper the default one. -/
def defaultCode (name : String) : Code :=
  block ("impl ::core::default::Default for " ++ name) [block "fn default() -> Self" [line "Self::new()"]]

/-- The methods of an object type. -/
def objectMethods (s : Source) (t : TypeDefinition) : List Code :=
  [line ("pub const TYPENAME: &'static str = " ++ quoted t.name ++ ";"),
    blank,
    method "new" "() -> Self" [line "Self::from_object(rt::ObjectRef::new(Self::TYPENAME))"],
    blank,
    method "from_object" "(inner: rt::ObjectRef) -> Self" [line "Self \x7b inner \x7d"],
    blank,
    method "into_object" "(self) -> rt::ObjectRef" [line "self.inner"],
    blank,
    method "object" "(&self) -> &rt::ObjectRef" [line "&self.inner"],
    blank,
    doc "Creates an instance and patches `data` into it.",
    method "from_data" ("(env: &rt::Environment, data: &rt::serde_json::Value) -> " ++
        resultOf "Self" "rt::PatchError")
      [line "let object = Self::new();", line "object.patch(env, data)?;", line "Ok(object)"],
    blank,
    method "patch" ("(&self, env: &rt::Environment, data: &rt::serde_json::Value) -> " ++
        resultOf "rt::ChangeSet" "rt::PatchError")
      [line "env.patch(&self.inner, data)"]] ++
  t.fields.values.flatMap (fieldCode s)

def objectCode (s : Source) (t : TypeDefinition) : List Code :=
  [blank] ++ docs t.description ++
  [line "#[derive(Debug, Clone, PartialEq)]",
    .type "struct" t.name [line "inner: rt::ObjectRef,"],
    blank,
    block ("impl " ++ t.name) (objectMethods s t),
    blank,
    defaultCode t.name]

/-- The same expression for every variant. -/
def variantMatch (variants : List String) (expression : String) : Code :=
  block "match self" (variants.map fun v => line ("Self::" ++ v ++ "(value) => " ++ expression ++ ","))

/-- Whether all object types have a field with this name and type. -/
def isShared (s : Source) (t : TypeDefinition) (field : FieldDefinition) : Bool :=
  !t.possibleTypes.isEmpty && t.possibleTypes.all fun p =>
    ((s.graph.get? p).bind (·.field? field.wireName)).any fun own => own.type = field.type

/-- The methods of an interface's field, which go to the variant at hand. -/
def interfaceFieldCode (s : Source) (t : TypeDefinition) (field : FieldDefinition) : List Code :=
  let variants := t.possibleTypes
  match (if isShared s t field then s.accessorType? field.type else none) with
  | none =>
      [blank,
        line ("// `" ++ field.wireName ++ ": " ++ field.type.text ++
          "` has no shared accessor on the possible types.")]
  | some accessor =>
      [blank] ++ fieldHead field ++
      [method (getterName field) ("(&self) -> " ++ accessor)
          [variantMatch variants ("value." ++ getterName field ++ "()")],
        blank,
        method (setterName field) ("(&self, value: " ++ accessor ++ ")")
          [block "match self" (variants.map fun v =>
            line ("Self::" ++ v ++ "(inner) => inner." ++ setterName field ++ "(value),"))],
        blank,
        method (hookName field) hookSignature
          [block "match self" (variants.map fun v =>
            line ("Self::" ++ v ++ "(value) => value." ++ hookName field ++
              "(move |object| callback(&Self::" ++ v ++ "(object.clone()))),"))]]

/-- The methods of an interface or a union. -/
def abstractMethods (s : Source) (t : TypeDefinition) : List Code :=
  let variants := t.possibleTypes
  [doc "Picks the variant from the instance's concrete type.",
    method "from_object" ("(object: rt::ObjectRef) -> " ++ optionOf "Self")
      [block "match object.typename().as_str()"
        ((variants.map fun v =>
            line (v ++ "::TYPENAME => Some(Self::" ++ v ++ "(" ++ v ++ "::from_object(object))),")) ++
          [line "_ => None,"])],
    blank,
    method "into_object" "(self) -> rt::ObjectRef" [variantMatch variants "value.into_object()"],
    blank,
    method "object" "(&self) -> &rt::ObjectRef" [variantMatch variants "value.object()"],
    blank,
    method "typename" "(&self) -> &'static str"
      [block "match self" (variants.map fun v => line ("Self::" ++ v ++ "(_) => " ++ v ++ "::TYPENAME,"))]] ++
  (if t.kind = .interface then t.fields.values.flatMap (interfaceFieldCode s t) else [])

def abstractCode (s : Source) (t : TypeDefinition) : List Code :=
  [blank] ++ docs t.description ++
  [line "#[derive(Debug, Clone, PartialEq)]",
    .type "enum" t.name (t.possibleTypes.map fun v => line (v ++ "(" ++ v ++ "),")),
    blank,
    block ("impl " ++ t.name) (abstractMethods s t)]

/-- The name of an operation's handler, which may not be the name of a type. -/
def handlerName (g : TypeGraph) (o : Operation) : String :=
  if g.contains o.name then o.name ++ "Operation" else o.name

/-- A text between quotes and enough number signs to be taken verbatim. -/
def verbatim (text : String) : String :=
  let hashes := String.ofList (List.replicate (hashCount text) '#')
  "r" ++ hashes ++ "\"" ++ text ++ "\"" ++ hashes

def operationCode (g : TypeGraph) (o : Operation) : List Code :=
  let name := handlerName g o
  [blank,
    doc ("Handler for the `" ++ o.name ++ "` " ++ o.kind.text ++ "."),
    .type "struct" name [line "handler: rt::QueryHandler,"],
    blank,
    block ("impl " ++ name)
      [line ("pub const OPERATION_NAME: &'static str = " ++ quoted o.name ++ ";"),
        line ("pub const ROOT_TYPE: &'static str = " ++ quoted o.rootType ++ ";"),
        line ("pub const DOCUMENT: &'static str = " ++ verbatim o.source ++ ";"),
        blank,
        method "new" "() -> Self" [line "Self::with_variables(rt::Variables::new())"],
        blank,
        method "with_variables" "(variables: rt::Variables) -> Self"
          [line "Self \x7b handler: rt::QueryHandler::new(Self::request().variables(variables)) \x7d"],
        blank,
        method "request" "() -> rt::OperationRequest"
          [line "rt::OperationRequest::new(Self::OPERATION_NAME, Self::DOCUMENT, Self::ROOT_TYPE)"],
        blank,
        doc "Sends the operation and returns its id, `None` once it has finished.",
        method "execute" ("(&self, env: &rt::Environment) -> " ++ optionOf "::std::string::String")
          [line "env.execute(&self.handler)"],
        blank,
        method "dispose" "(&self, env: &rt::Environment)" [line "env.dispose(&self.handler);"],
        blank,
        method "handler" "(&self) -> &rt::QueryHandler" [line "&self.handler"],
        blank,
        doc "Root instance, once the first data has arrived.",
        method "data" ("(&self) -> " ++ optionOf o.rootType)
          [line ("self.handler.root().map(" ++ o.rootType ++ "::from_object)")]],
    blank,
    defaultCode name]

/-- The code of a module: enumerations, objects, abstract types, operations. -/
def moduleCode (s : Source) (operations : List Operation) (options : Options) : List Code :=
  header options ++
  (s.graph.ofKind .enum).flatMap enumCode ++
  (s.graph.ofKind .object).flatMap (objectCode s) ++
  (s.graph.definitions.filter (·.kind.isAbstract)).flatMap (abstractCode s) ++
  (if options.operations then operations.flatMap (operationCode s.graph) else [])

/-- The text of a module. -/
def generate (graph : TypeGraph) (operations : List Operation) (scalars : Registry) (options : Options) :
    String :=
  renderAll 0 (moduleCode ⟨graph, scalars⟩ operations options)

end GraphClient.Bindings
