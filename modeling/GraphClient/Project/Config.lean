import GraphClient.Bindings.Generate
import GraphClient.Json.Reader
import GraphClient.Json.Record
import GraphClient.Project.Path

/-! The project file. It names the schema, the documents, the module to be written, further scalars and
how code is generated, each of them optional. What is not known is refused. -/

namespace GraphClient.Project

/-- How code is generated, as far as the project says. -/
structure CodeConfig where
  moduleDoc : Option String
  runtime : Option String
  operations : Option Bool
  deriving DecidableEq, Repr

/-- A project. -/
structure Config where
  /-- The introspection result. -/
  schema : Option Path
  /-- Documents with operations. -/
  operations : List Path
  /-- The module to be written, or else it is printed. -/
  output : Option Path
  /-- Scalars of the schema, each with the scalar that it is like. -/
  scalars : Table String
  code : CodeConfig

namespace Config

/-- The name of the project file. -/
def fileName : Path := ⟨"livegql.json"⟩

/-- A project that says nothing. -/
def empty : Config := ⟨none, [], none, .empty, ⟨none, none, none⟩⟩

/-- Whether a project says nothing. -/
def isEmpty (c : Config) : Bool :=
  c.schema.isNone && c.operations.isEmpty && c.output.isNone && c.scalars.entries.isEmpty &&
    c.code = ⟨none, none, none⟩

/-- Whether a value is a record that has no other members than these. -/
def isExactRecord (fields : List String) (json : Json) : Bool :=
  json.isRecord fields &&
    match json with
    | .object members => members.all fun m => m.1 ∈ fields
    | _ => true

def readPath? (json : Json) : Option Path := json.string?.map Path.mk

def readScalars? : Json → Option (Table String)
  | .object members => do
      let entries ← members.mapM fun m => m.2.string?.map (m.1, ·)
      return .ofList entries
  | _ => none

def codeFields : List String := ["moduleDoc", "runtimeCrate", "operations"]

def readCode? (json : Json) : Option CodeConfig := do
  guard (isExactRecord codeFields json)
  let field (name : String) : Option Json := json.field? codeFields name
  let moduleDoc ← Json.optional Json.string? (field "moduleDoc")
  let runtime ← Json.optional Json.string? (field "runtimeCrate")
  let operations ← Json.optional Json.bool? (field "operations")
  return ⟨moduleDoc, runtime, operations⟩

def fields : List String := ["schema", "operations", "output", "scalars", "codegen"]

def ofJson? (json : Json) : Option Config := do
  guard (isExactRecord fields json)
  let field (name : String) : Option Json := json.field? fields name
  let schema ← Json.optional readPath? (field "schema")
  let operations ← Json.orDefault [] (Json.listOf readPath?) (field "operations")
  let output ← Json.optional readPath? (field "output")
  let scalars ← Json.orDefault .empty readScalars? (field "scalars")
  let code ← Json.orDefault empty.code readCode? (field "codegen")
  return ⟨schema, operations, output, scalars, code⟩

/-- Reads a project. -/
def parse? (text : String) : Option Config := (Json.read? text).bind ofJson?

/-- The project with its paths seen from where the project file is. -/
def resolve (c : Config) (base : Path) : Config :=
  { c with schema := c.schema.map base.join, operations := c.operations.map base.join,
           output := c.output.map base.join }

/-- The standard scalars and those of the project, in order. -/
def registry (c : Config) : Except ScalarError Registry :=
  c.scalars.entries.foldlM (fun r e => r.registerAlias e.1 e.2) Registry.standard

def options (c : Config) : Bindings.Options :=
  let base := Bindings.Options.default
  ⟨c.code.moduleDoc.getD base.moduleDoc, c.code.runtime.getD base.runtime,
    c.code.operations.getD base.operations⟩

end Config

end GraphClient.Project
