import GraphClient.Bindings.Compile
import GraphClient.Project.Arguments
import GraphClient.Project.Config
import GraphClient.Schema.Describe

/-! The commands of the program. Where files come from and where text goes is left to the surroundings;
a command ends with an exit code, or with an error that says what is in the way. -/

namespace GraphClient.Project

/-- What a command can do outside of itself. -/
structure Surroundings (m : Type → Type) where
  isFile : Path → m Bool
  /-- The text of a file, if it can be read. -/
  read : Path → m (Option String)
  /-- Writes a file; tells whether that was possible. -/
  write : Path → String → m Bool
  print : String → m Unit
  /-- Tells that a document cannot be bound. -/
  report : Path → BindError → m Unit

/-- Why a command cannot go on. -/
inductive CommandError
  | unreadable (path : Path)
  | unwritable (path : Path)
  /-- The project file is no project. -/
  | badConfig (path : Path)
  | missingSchema
  | unknownType (name : String)
  | schema (error : SchemaError)
  | scalar (error : ScalarError)

namespace CommandError

/-- The message, if the error has one. -/
def message? : CommandError → Option String
  | unreadable path => some ("cannot read " ++ path.text)
  | unwritable path => some ("cannot write " ++ path.text)
  | badConfig path => some ("invalid project file " ++ path.text)
  | missingSchema => some "no schema given"
  | unknownType name => some ("type `" ++ name ++ "` is not in the schema")
  | schema error => error.message?
  | scalar error => error.message?

/-- The code under which an error is documented. -/
def code : CommandError → String
  | unreadable _ | unwritable _ => "livegql::cli::io"
  | badConfig _ => "livegql::cli::config"
  | missingSchema => "livegql::cli::missing_schema"
  | unknownType _ => "livegql::cli::unknown_type"
  | schema error => error.code
  | scalar error => error.code

/-- What to do about an error. -/
def help? : CommandError → Option String
  | missingSchema => some ("pass --schema or set `schema` in " ++ Config.fileName.text)
  | schema error => error.help?
  | scalar error => error.help?
  | _ => none

end CommandError

/-- The line that tells the version. -/
def versionLine : String := "livegql 0.1.0\n"

section

variable {m : Type → Type} [Monad m] (s : Surroundings m)

abbrev Task (m : Type → Type) := ExceptT CommandError m

def readFile (path : Path) : Task m String := do
  match ← s.read path with
  | some text => return text
  | none => throw (.unreadable path)

/-- The project of a project file. -/
def loadConfig (path : Path) : Task m Config := do
  match Config.parse? (← readFile s path) with
  | some config =>
      return match path.parent? with
        | some base => config.resolve base
        | none => config
  | none => throw (.badConfig path)

/-- The project of the file that was asked for, or of the usual one if it is there. -/
def findConfig (asked : Option Path) : Task m Config := do
  match asked with
  | some path => loadConfig s path
  | none => if ← s.isFile Config.fileName then loadConfig s Config.fileName else return Config.empty

/-- Inputs on the command line come before those of the project; scalars are added to them. -/
def Config.withInputs (config : Config) (inputs : Inputs) : Config :=
  { config with
    schema := inputs.schema <|> config.schema
    operations := if inputs.operations.isEmpty then config.operations else inputs.operations
    scalars := inputs.scalars.foldl (fun table e => table.insert e.1 e.2) config.scalars }

def loadGraph (config : Config) : Task m TypeGraph := do
  match config.schema with
  | none => throw .missingSchema
  | some path =>
      match TypeGraph.parse (← readFile s path) with
      | .ok graph => return graph
      | .error e => throw (.schema e)

def loadScalars (config : Config) : Task m Registry :=
  match config.registry with
  | .ok scalars => return scalars
  | .error e => throw (.scalar e)

/-- Binds documents one after the other and reports those that cannot be bound; nothing if there are
any. -/
def bindDocuments (graph : TypeGraph) (verbose : Bool) : List Path → Task m (Option (List Operation))
  | [] => return some []
  | path :: rest => do
      if verbose then s.print ("Checking " ++ path.text ++ "\n")
      match GraphClient.bind graph (← readFile s path) with
      | .ok bound =>
          if verbose then
            s.print ("OK " ++ path.text ++ " (" ++ toString bound.length ++ " operations)\n")
          return (← bindDocuments graph verbose rest).map (bound ++ ·)
      | .error e =>
          s.report path e
          let _ ← bindDocuments graph verbose rest
          return none

/-- A schema with its scalars and with the operations of all documents; nothing if a document cannot be
bound. -/
def loadAll (config : Config) (verbose : Bool) :
    Task m (Option (TypeGraph × Registry × List Operation)) := do
  let graph ← loadGraph s config
  let scalars ← loadScalars config
  match ← bindDocuments s graph verbose config.operations with
  | none => return none
  | some operations =>
      match Bindings.checkScalars graph scalars with
      | .ok () => return some (graph, scalars, operations)
      | .error e => throw (.scalar e)

/-- Generates the module of a project and writes or prints it. -/
def runGenerate (config : Config) (verbose : Bool) : Task m Nat := do
  match ← loadAll s config verbose with
  | none => return 1
  | some (graph, scalars, operations) =>
      let code := Bindings.generate graph operations scalars config.options
      match config.output with
      | none => s.print code
      | some path =>
          if ← s.write path code then
            s.print ("Generated " ++ path.text ++ " (" ++ toString graph.definitions.length ++ " types, " ++
              toString operations.length ++ " operations)\n")
          else throw (.unwritable path)
      return 0

/-- Checks that a module could be generated. -/
def runCheck (config : Config) (verbose : Bool) : Task m Nat := do
  match ← loadAll s config verbose with
  | none => return 1
  | some (graph, _, operations) =>
      s.print ("Success: " ++ toString graph.definitions.length ++ " types, " ++
        toString operations.length ++ " operations in " ++ toString config.operations.length ++
        " document(s)\n")
      return 0

/-- Prints a schema, or one type of it. -/
def runInspect (config : Config) (typeName : Option String) : Task m Nat := do
  let graph ← loadGraph s config
  match typeName with
  | none => s.print graph.describeAll
  | some name =>
      match graph.get? name with
      | some t => s.print (graph.describe t)
      | none => throw (.unknownType name)
  return 0

/-- Runs a command and gives the exit code. -/
def run (arguments : Arguments) : Task m Nat := do
  let config ← findConfig s arguments.config
  match arguments.command with
  | .generate inputs output runtime skipOperations =>
      let config := config.withInputs inputs
      let code : CodeConfig :=
        { config.code with
          runtime := runtime <|> config.code.runtime
          operations := if skipOperations then some false else config.code.operations }
      runGenerate s { config with output := output <|> config.output, code := code } arguments.verbose
  | .check inputs => runCheck s (config.withInputs inputs) arguments.verbose
  | .inspect schema typeName => runInspect s { config with schema := schema <|> config.schema } typeName
  | .version =>
      s.print versionLine
      return 0

end

end GraphClient.Project
