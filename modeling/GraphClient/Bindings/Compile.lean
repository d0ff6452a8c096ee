import GraphClient.Bindings.Generate
import GraphClient.Operation.Bind
import GraphClient.Schema.Build

/-! From an introspection result and documents to a module. Nothing is generated unless the schema can
be built, every document can be bound and every scalar in use has a converter; the first fault in this
order is told. -/

namespace GraphClient.Bindings

/-- Why nothing is generated. -/
inductive CompileError
  | schema (error : SchemaError)
  /-- The document at an index cannot be bound. -/
  | bind (document : Nat) (error : BindError)
  | scalar (error : ScalarError)

/-- The message for a document that cannot be bound. -/
def bindMessage (document : Nat) (error : BindError) : String :=
  "document " ++ toString document ++ ": " ++ error.fault.message

/-- The code under which such an error is documented. -/
def bindCode : String := "livegql::compile::bind"

/-- The custom scalars that fields of composite types have, in order. -/
def usedScalars (graph : TypeGraph) : List String :=
  (graph.definitions.filter (·.kind.isComposite)).flatMap fun t =>
    (t.fields.values.map (·.type.typeName)).filter fun n =>
      (graph.get? n).any fun target => target.kind = .customScalar

/-- Whether every custom scalar in use has a converter. -/
def checkScalars (graph : TypeGraph) (scalars : Registry) : Except ScalarError Unit :=
  (usedScalars graph).forM fun n => (scalars.resolve n).map fun _ => ()

/-- Binds documents, counting from `index`. -/
def bindAll (graph : TypeGraph) (index : Nat) : List String → Except CompileError (List Operation)
  | [] => .ok []
  | source :: rest => do
      let bound ← (GraphClient.bind graph source).mapError (.bind index)
      return bound ++ (← bindAll graph (index + 1) rest)

/-- The module for a schema and documents. -/
def compile (introspection : String) (documents : List String) (scalars : Registry) (options : Options) :
    Except CompileError String := do
  let graph ← (TypeGraph.parse introspection).mapError .schema
  let operations ← bindAll graph 0 documents
  (checkScalars graph scalars).mapError .scalar
  return generate graph operations scalars options

end GraphClient.Bindings
