import GraphClient.Live.Heap
import GraphClient.Live.Plan

/-! The bodies of generated methods as expressions. An expression has a type, so that what a getter
gives can only be what its head says; it has a text, which is what stands in a module; and it has a
value, which is what the text means for an object of the store. Only one variable is in scope at a
time: the object at hand, what a setter was given, or what a closure is handed. -/

namespace GraphClient

/-- The type in which a program holds the values of a scalar. -/
def StandardScalar.native : StandardScalar → NativeType
  | string | id => .text
  | int => .int
  | float => .float
  | boolean => .boolean
  | dateTime => .dateTime
  | date => .date
  | time => .time
  | decimal => .decimal
  | uuid => .uuid

namespace Live.Leaf

/-- The type that values of a leaf have in generated code. -/
def native : Leaf → String
  | scalar c => c.typeText
  | enum typeName _ => typeName

/-- A stored value as one of the type of the leaf, if it is one. -/
def read? : Leaf → ScalarValue → Option ScalarValue
  | scalar c, v => c.base.native.read? v
  | enum _ members, v => v.text?.bind fun s => if s ∈ members then some (.enum s) else none

/-- What is read where no value of the type stands. No value is of an enumeration without members, and
a program that asks for one stops; null stands for that. -/
def fallback : Leaf → ScalarValue
  | scalar c => c.base.native.fallback
  | enum _ (m :: _) => .enum m
  | enum _ [] => .null

end Live.Leaf

namespace Bindings

open Live (Leaf FieldPlan Heap ObjectId ListId)

/-- Types of expressions. -/
inductive CodeType
  | leaf (leaf : Leaf)
  /-- An object of the store. -/
  | object
  /-- A list of the store. -/
  | list
  /-- An object behind the type that the module has under a name. -/
  | wrapper (typeName : String)
  | option (type : CodeType)
  | vec (type : CodeType)

namespace CodeType

def text : CodeType → String
  | leaf l => l.native
  | object => "rt::ObjectRef"
  | list => "rt::ReactiveList"
  | wrapper typeName => typeName
  | option type => "::core::option::Option<" ++ type.text ++ ">"
  | vec type => "::std::vec::Vec<" ++ type.text ++ ">"

/-- What the values of a type are. -/
def Value : CodeType → Type
  | leaf _ => ScalarValue
  | object | wrapper _ => ObjectId
  | list => ListId
  | option type => Option type.Value
  | vec type => List type.Value

end CodeType

mutual

/-- Expressions, by the type of their variable and by their own. -/
inductive Expr : CodeType → CodeType → Type
  | var {a : CodeType} : Expr a a
  | scalarAs {a : CodeType} (leaf : Leaf) (object : Expr a .object) : Expr a (.option (.leaf leaf))
  | scalarOrFallback {a : CodeType} (leaf : Leaf) (object : Expr a .object) : Expr a (.leaf leaf)
  | scalarListAs {a : CodeType} (leaf : Leaf) (object : Expr a .object) :
      Expr a (.option (.vec (.option (.leaf leaf))))
  | object {a : CodeType} (object : Expr a .object) : Expr a (.option .object)
  | list {a : CodeType} (object : Expr a .object) : Expr a (.option .list)
  | elements {a : CodeType} (list : Expr a .list) : Expr a (.vec .object)
  | some {a b : CodeType} (value : Expr a b) : Expr a (.option b)
  | map {a b c : CodeType} (value : Expr a (.option b)) (f : Func b c) : Expr a (.option c)
  | andThen {a b c : CodeType} (value : Expr a (.option b)) (f : Func b (.option c)) : Expr a (.option c)
  | orFallback {a : CodeType} (leaf : Leaf) (value : Expr a (.option (.leaf leaf))) : Expr a (.leaf leaf)
  | orEmpty {a b : CodeType} (value : Expr a (.option (.vec b))) : Expr a (.vec b)
  | each {a b c : CodeType} (values : Expr a (.vec b)) (f : Func b c) : Expr a (.vec c)
  /-- Like `each`, without those that nothing is found for. -/
  | eachFound {a b c : CodeType} (values : Expr a (.vec b)) (f : Func b (.option c)) : Expr a (.vec c)

/-- What is handed to a method of an option or a vector. -/
inductive Func : CodeType → CodeType → Type
  /-- From an object to the type of its own that the module has. -/
  | wrap (typeName : String) : Func .object (.wrapper typeName)
  /-- From an object to a choice of types, none of which may be its own. -/
  | pick (typeName : String) : Func .object (.option (.wrapper typeName))
  | unwrap (typeName : String) : Func (.wrapper typeName) .object
  | some {a : CodeType} : Func a (.option a)
  | closure {a b : CodeType} (name : String) (body : Expr a b) : Func a b

end

mutual

/-- How an expression about a field is written, where its variable has the name `x`. -/
@[simp] def Expr.text (field x : String) {a b : CodeType} : Expr a b → String
  | .var => x
  | .scalarAs leaf object => object.text field x ++ ".scalar_as::<" ++ leaf.native ++ ">(\"" ++ field ++ "\")"
  | .scalarOrFallback leaf object =>
      object.text field x ++ ".scalar_or_fallback::<" ++ leaf.native ++ ">(\"" ++ field ++ "\")"
  | .scalarListAs leaf object =>
      object.text field x ++ ".scalar_list_as::<" ++ leaf.native ++ ">(\"" ++ field ++ "\")"
  | .object object => object.text field x ++ ".object(\"" ++ field ++ "\")"
  | .list object => object.text field x ++ ".list(\"" ++ field ++ "\")"
  | .elements list => list.text field x ++ ".to_vec()"
  | .some value => "Some(" ++ value.text field x ++ ")"
  | .map value f => value.text field x ++ ".map(" ++ f.text field ++ ")"
  | .andThen value f => value.text field x ++ ".and_then(" ++ f.text field ++ ")"
  | .orFallback leaf value =>
      value.text field x ++ ".unwrap_or_else(<" ++ leaf.native ++ " as rt::NativeScalar>::fallback)"
  | .orEmpty value => value.text field x ++ ".unwrap_or_default()"
  | .each values f => values.text field x ++ ".into_iter().map(" ++ f.text field ++ ").collect()"
  | .eachFound values f => values.text field x ++ ".into_iter().filter_map(" ++ f.text field ++ ").collect()"

@[simp] def Func.text (field : String) {a b : CodeType} : Func a b → String
  | .wrap typeName | .pick typeName => typeName ++ "::from_object"
  | .unwrap typeName => typeName ++ "::into_object"
  | .some => "Some"
  | .closure name body => "|" ++ name ++ "| " ++ body.text field name

end

mutual

/-- The value of an expression about a field. -/
def Expr.eval (g : TypeGraph) (h : Heap) (field : String) {a b : CodeType} : Expr a b → a.Value → b.Value
  | .var, x => x
  | .scalarAs leaf object, x =>
      ((h.object (object.eval g h field x)).scalar? field).bind leaf.read?
  | .scalarOrFallback leaf object, x =>
      (((h.object (object.eval g h field x)).scalar? field).bind leaf.read?).getD leaf.fallback
  | .scalarListAs leaf object, x =>
      ((h.object (object.eval g h field x)).scalars? field).map (·.map leaf.read?)
  | .object object, x => (h.object (object.eval g h field x)).object? field
  | .list object, x => (h.object (object.eval g h field x)).list? field
  | .elements list, x => (h.list (list.eval g h field x)).items
  | .some value, x => Option.some (value.eval g h field x)
  | .map value f, x => Option.map (f.apply g h field) (value.eval g h field x)
  | .andThen value f, x => Option.bind (value.eval g h field x) (f.apply g h field)
  | .orFallback leaf value, x => Option.getD (value.eval g h field x) leaf.fallback
  | .orEmpty value, x => Option.getD (value.eval g h field x) []
  | .each values f, x => List.map (f.apply g h field) (values.eval g h field x)
  | .eachFound values f, x => List.filterMap (f.apply g h field) (values.eval g h field x)

def Func.apply (g : TypeGraph) (h : Heap) (field : String) {a b : CodeType} : Func a b → a.Value → b.Value
  | .wrap _, o => o
  | .pick typeName, o =>
      if (g.get? typeName).any (·.isPossibleType (h.object o).typeName) then Option.some o else none
  | .unwrap _, o => o
  | .some, x => Option.some x
  | .closure _ body, x => body.eval g h field x

end

/-- What a setter tells the object, by the type of what it was given. -/
inductive Setter (a : CodeType)
  | scalar (leaf : Leaf) (value : Expr a (.leaf leaf))
  | optionalScalar (leaf : Leaf) (value : Expr a (.option (.leaf leaf)))
  | scalarList (leaf : Leaf) (values : Expr a (.option (.vec (.option (.leaf leaf)))))
  | object (value : Expr a (.option .object))
  /-- The type of the elements and whether the list is keyed go along, in case there is no list yet. -/
  | objectList (element : String) (keyed : Bool) (values : Expr a (.vec .object))

namespace Setter

/-- The method of the object that a setter calls. -/
@[simp] def call {a : CodeType} : Setter a → String
  | scalar .. => "set_scalar"
  | optionalScalar .. => "set_optional_scalar"
  | scalarList .. => "set_scalar_list"
  | object .. => "set_object"
  | objectList .. => "set_object_list"

/-- What a setter that was given `x` hands on, besides the name of the field. -/
@[simp] def arguments (field x : String) {a : CodeType} : Setter a → String
  | scalar _ value => value.text field x
  | optionalScalar _ value => value.text field x
  | scalarList _ values => values.text field x
  | object value => value.text field x
  | objectList element keyed values =>
      "\"" ++ element ++ "\", " ++ toString keyed ++ ", " ++ values.text field x

/-- How a setter of a field is written. -/
def text (field : String) {a : CodeType} (setter : Setter a) : String :=
  "self.inner." ++ setter.call ++ "(\"" ++ field ++ "\", " ++ setter.arguments field "value" ++ ");"

end Setter

/-- A getter and a setter for one field, of one type. -/
structure Accessors where
  type : CodeType
  getter : Expr .object type
  setter : Setter type

/-! The accessors for what a field holds. A leaf that may be null is an option, and one that may not
falls back; the same goes for the items of a list of leaves and for the list. An object is always an
option: one of a single type is wrapped, one of several types is looked for among them. A list of
objects is a vector, and the elements of several types are looked for one by one. -/

namespace Accessors

def leaf (leaf : Leaf) (nullable : Bool) : Accessors :=
  if nullable then ⟨.option (.leaf leaf), .scalarAs leaf .var, .optionalScalar leaf .var⟩
  else ⟨.leaf leaf, .scalarOrFallback leaf .var, .scalar leaf .var⟩

/-- Puts a value where an item is missing. -/
def filled (leaf : Leaf) : Func (.vec (.option (.leaf leaf))) (.vec (.leaf leaf)) :=
  .closure "items" (.each .var (.closure "item" (.orFallback leaf .var)))

def leafList (leaf : Leaf) (nullable itemNullable : Bool) : Accessors :=
  match nullable, itemNullable with
  | true, true => ⟨.option (.vec (.option (.leaf leaf))), .scalarListAs leaf .var, .scalarList leaf .var⟩
  | true, false =>
      ⟨.option (.vec (.leaf leaf)), .map (.scalarListAs leaf .var) (filled leaf),
        .scalarList leaf (.map .var (.closure "items" (.each .var .some)))⟩
  | false, true =>
      ⟨.vec (.option (.leaf leaf)), .orEmpty (.scalarListAs leaf .var), .scalarList leaf (.some .var)⟩
  | false, false =>
      ⟨.vec (.leaf leaf), .orEmpty (.map (.scalarListAs leaf .var) (filled leaf)),
        .scalarList leaf (.some (.each .var .some))⟩

def object (target : String) : Accessors :=
  ⟨.option (.wrapper target), .map (.object .var) (.wrap target), .object (.map .var (.unwrap target))⟩

def abstract (target : String) : Accessors :=
  ⟨.option (.wrapper target), .andThen (.object .var) (.pick target), .object (.map .var (.unwrap target))⟩

def objectList (element : String) (isAbstract keyed : Bool) : Accessors where
  type := .vec (.wrapper element)
  getter := .orEmpty (.map (.list .var) (.closure "list"
    (if isAbstract then .eachFound (.elements .var) (.pick element)
    else .each (.elements .var) (.wrap element))))
  setter := .objectList element keyed (.each .var (.unwrap element))

end Accessors

/-- The accessors of a stored field. -/
def accessorsOf (plan : FieldPlan) : Accessors :=
  match plan.kind with
  | .leaf leaf => .leaf leaf plan.nullable
  | .leafList leaf itemNullable => .leafList leaf plan.nullable itemNullable
  | .object target => .object target
  | .abstract target => .abstract target
  | .objectList element isAbstract keyed => .objectList element isAbstract keyed

end Bindings

end GraphClient
