import GraphClient.Schema.TypeGraph

/-! Types of a schema in a few lines for people. -/

namespace GraphClient

/-- A field in one line. -/
def FieldDefinition.describe (f : FieldDefinition) : String :=
  "  " ++ f.wireName ++ ": " ++ f.type.text ++ (if f.isId then " [id]" else "") ++
    (if f.deprecated then " (deprecated)" else "") ++ "\n"

/-- The object types of a type in one line. -/
def TypeDefinition.describePossible (t : TypeDefinition) : String :=
  "  = " ++ " | ".intercalate t.possibleTypes ++ "\n"

/-- A type: its kind, name and interfaces, then what is inside. -/
def TypeGraph.describe (g : TypeGraph) (t : TypeDefinition) : String :=
  let head := t.kind.label ++ " " ++ t.name ++
    (if t.interfaces.isEmpty then "" else " implements " ++ " & ".intercalate t.interfaces) ++
    (if t.kind.isComposite && g.isKeyed t.name then " (keyed)" else "") ++ "\n"
  let fields := String.join (t.fields.values.map (·.describe))
  let body := match t.kind with
    | .object | .interface => fields ++ if t.possibleTypes.isEmpty then "" else t.describePossible
    | .union => t.describePossible
    | .enum => String.join (t.members.map fun m => "  " ++ m.name ++ "\n")
    | .scalar | .customScalar => ""
  head ++ body

/-- The root types of a schema, one in a line. -/
def TypeGraph.describeRoots (g : TypeGraph) : String :=
  let line (label : String) (name : Option String) : String := match name with
    | some n => label ++ ": " ++ n ++ "\n"
    | none => ""
  line "query" (some g.queryType) ++ line "mutation" g.mutationType ++ line "subscription" g.subscriptionType

/-- A whole schema. -/
def TypeGraph.describeAll (g : TypeGraph) : String :=
  g.describeRoots ++ String.join (g.definitions.map fun t => "\n" ++ g.describe t)

end GraphClient
