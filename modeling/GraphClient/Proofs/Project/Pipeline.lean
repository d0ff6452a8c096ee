import GraphClient.Proofs.Except
import GraphClient.Proofs.Project.Folder
import Mathlib

/-! The commands and the library agree. A command in a folder goes through the same stages as the
library does with the texts of the folder, in another order and with other endings; where the
library gives a module, `generate` writes or prints that module and `check` finds nothing, and where
it does not, no file is touched. -/

namespace GraphClient.Project

open Bindings (CompileError bindAll checkScalars compile)

/-- The folder after something was printed. -/
def Folder.saying (folder : Folder) (said : String) : Folder :=
  { folder with printed := folder.printed ++ said }

theorem Folder.saying_empty (folder : Folder) : folder.saying "" = folder := by
  rw [saying, String.append_empty]

theorem Folder.saying_saying (folder : Folder) (first second : String) :
    (folder.saying first).saying second = folder.saying (first ++ second) := by
  rw [saying, saying, saying, String.append_assoc]

theorem Folder.read?_saying (folder : Folder) (said : String) (path : Path) :
    (folder.saying said).read? path = folder.read? path :=
  read?_congr (f := folder.saying said) (g := folder) rfl path

namespace Task

section

variable {α β : Type} {folder : Folder} {verbose : Bool}

/-- What a task comes to in a folder, and the folder after it. -/
def runIn (task : Task (StateM Folder) α) (folder : Folder) : Except CommandError α × Folder :=
  StateT.run (ExceptT.run task) folder

theorem runIn_bind (task : Task (StateM Folder) α) (next : α → Task (StateM Folder) β) (folder : Folder) :
    Task.runIn (task >>= next) folder =
      match task.runIn folder with
      | (.ok a, after) => (next a).runIn after
      | (.error e, after) => (.error e, after) := by
  rw [runIn, ExceptT.run_bind, StateT.run_bind, runIn]
  rcases StateT.run (ExceptT.run task) folder with ⟨_ | _, _⟩ <;> rfl

/-- A task that comes to a result in a folder, whatever was printed before, and touches no file.
Unless it is verbose it prints nothing. -/
def ComesTo (task : Task (StateM Folder) α) (folder : Folder) (verbose : Bool)
    (result : Except CommandError α) : Prop :=
  ∀ before, ∃ said, task.runIn (folder.saying before) = (result, folder.saying (before ++ said)) ∧
    (verbose = false → said = "")

theorem ComesTo.run {task : Task (StateM Folder) α} {result : Except CommandError α}
    (htask : task.ComesTo folder verbose result) :
    ∃ said, task.runIn folder = (result, folder.saying said) ∧ (verbose = false → said = "") := by
  obtain ⟨said, hrun, hquiet⟩ := htask ""
  rw [folder.saying_empty, String.empty_append] at hrun
  exact ⟨said, hrun, hquiet⟩

/-- A task that neither prints nor touches a file. -/
theorem ComesTo.of_quiet {task : Task (StateM Folder) α} {result : Except CommandError α}
    (hrun : ∀ before, task.runIn (folder.saying before) = (result, folder.saying before)) :
    task.ComesTo folder verbose result :=
  fun before => ⟨"", by rw [hrun, String.append_empty], fun _ => rfl⟩

theorem ComesTo.pure (a : α) : ComesTo (pure a) folder verbose (.ok a) := .of_quiet fun _ => rfl

theorem ComesTo.throw (e : CommandError) :
    ComesTo (throw e : Task (StateM Folder) α) folder verbose (.error e) :=
  .of_quiet fun _ => rfl

theorem ComesTo.bind {task : Task (StateM Folder) α} {next : α → Task (StateM Folder) β} {a : α}
    {result : Except CommandError β} (htask : task.ComesTo folder verbose (.ok a))
    (hnext : (next a).ComesTo folder verbose result) : ComesTo (task >>= next) folder verbose result := by
  intro before
  obtain ⟨first, hfirst, hquiet⟩ := htask before
  obtain ⟨second, hsecond, hstill⟩ := hnext (before ++ first)
  refine ⟨first ++ second, ?_, fun hverbose => ?_⟩
  · rw [runIn_bind, hfirst, ← String.append_assoc]
    exact hsecond
  · rw [hquiet hverbose, hstill hverbose, String.append_empty]

theorem ComesTo.bind_error {task : Task (StateM Folder) α}
    {next : α → Task (StateM Folder) β} {e : CommandError}
    (htask : task.ComesTo folder verbose (.error e)) : ComesTo (task >>= next) folder verbose (.error e) := by
  intro before
  obtain ⟨said, htask, hquiet⟩ := htask before
  exact ⟨said, by rw [runIn_bind, htask], hquiet⟩

/-- What is printed by verbose commands alone changes no result. -/
theorem ComesTo.whenVerbose {task : Task (StateM Folder) α} {result : Except CommandError α} (text : String)
    (htask : task.ComesTo folder verbose result) :
    ComesTo
      (if verbose = true then (liftM (Folder.surroundings.print text) : Task
        (StateM Folder) Unit) >>= fun _ => task
        else task)
      folder verbose result := by
  cases verbose with
  | false => exact htask
  | true =>
      intro before
      obtain ⟨said, htask, -⟩ := htask (before ++ text)
      refine ⟨text ++ said, ?_, nofun⟩
      have hprint : runIn (liftM (Folder.surroundings.print text) : Task (StateM Folder) Unit)
          (folder.saying before) =
          (.ok (), (folder.saying before).saying text) := rfl
      rw [if_pos rfl, runIn_bind, hprint, folder.saying_saying, ← String.append_assoc]
      exact htask

theorem runIn_write (folder : Folder) (path : Path) (text : String) :
    runIn (liftM (Folder.surroundings.write path text) : Task (StateM Folder) Bool) folder =
      match folder.write? path text with
      | some after => (.ok true, after)
      | none => (.ok false, folder) := by
  have hrun : runIn (liftM (Folder.surroundings.write path text) : Task (StateM Folder) Bool) folder =
      (fun written : Bool × Folder => (Except.ok written.1, written.2)) (match folder.write? path text with
        | some after => (true, after)
        | none => (false, folder)) := rfl
  rw [hrun]
  cases folder.write? path text with
  | none => rfl
  | some after => rfl

theorem ComesTo.readFile {path : Path} {text : String} (hread : folder.read? path = some text) :
    ComesTo (readFile Folder.surroundings path) folder verbose (.ok text) := by
  refine .of_quiet fun before => ?_
  have hsame := (folder.read?_saying before path).trans hread
  have hasked : runIn (liftM (Folder.surroundings.read path) : Task (StateM Folder) (Option String))
      (folder.saying before) = (.ok (some text), folder.saying before) := by
    rw [← hsame]
    rfl
  rw [Project.readFile, runIn_bind, hasked]
  rfl

end

end Task

/-- The project of a project file in a folder. -/
def Folder.loadConfig? (folder : Folder) (path : Path) : Option Config := do
  let config ← Config.parse? (← folder.read? path)
  return match path.parent? with
    | some base => config.resolve base
    | none => config

/-- The project in force: that of the file that was asked for, or of the usual one if it is there. -/
def Folder.findConfig? (folder : Folder) (asked : Option Path) : Option Config :=
  match asked with
  | some path => folder.loadConfig? path
  | none =>
      if (folder.read? Config.fileName).isSome then folder.loadConfig? Config.fileName else some Config.empty

section

variable {folder : Folder} {verbose : Bool} {config : Config}

theorem loadConfig_comesTo {path : Path} (hload : folder.loadConfig? path = some config) :
    Task.ComesTo (loadConfig Folder.surroundings path) folder verbose (.ok config) := by
  obtain ⟨text, hread, hload⟩ := Option.bind_eq_some_iff.1 hload
  obtain ⟨parsed, hparse, hload⟩ := Option.bind_eq_some_iff.1 hload
  refine (Task.ComesTo.readFile hread).bind ?_
  rw [hparse, ← Option.some.inj hload]
  exact .pure _

theorem findConfig_comesTo {asked : Option Path} (hfind : folder.findConfig? asked = some config) :
    Task.ComesTo (findConfig Folder.surroundings asked) folder verbose (.ok config) := by
  cases asked with
  | some path => exact loadConfig_comesTo hfind
  | none =>
      have hisFile : Task.ComesTo (liftM (Folder.surroundings.isFile Config.fileName) : Task
          (StateM Folder) Bool)
          folder verbose (.ok (folder.read? Config.fileName).isSome) := by
        refine .of_quiet fun before => ?_
        rw [← folder.read?_saying before]
        rfl
      refine hisFile.bind ?_
      rw [Folder.findConfig?] at hfind
      split at hfind
      · rename_i hthere
        rw [if_pos hthere]
        exact loadConfig_comesTo hfind
      · rename_i hmissing
        rw [if_neg hmissing, ← Option.some.inj hfind]
        exact .pure _

end

/-- The project that a module is generated for: the command line comes before the project file. -/
def Config.generating (config : Config) (inputs : Inputs) (output : Option Path) (runtime : Option String)
    (skipOperations : Bool) : Config :=
  let config := config.withInputs inputs
  { config with
    output := output <|> config.output
    code := { config.code with
      runtime := runtime <|> config.code.runtime
      operations := if skipOperations then some false else config.code.operations } }

/-- What a project names is there: the schema and the documents as texts, and converters for its scalars. -/
structure Folder.Holds (folder : Folder) (project : Config) (schema : String) (documents : List String)
    (scalars : Registry) : Prop where
  schema : ∃ path, project.schema = some path ∧ folder.read? path = some schema
  documents : List.Forall₂ (fun path text => folder.read? path = some text) project.operations documents
  scalars : project.registry = .ok scalars

/-- What the stages in front of generating come to: a fault of the schema or of a scalar, nothing if a
document cannot be bound, or else all that code is generated from. -/
def stages (schema : String) (documents : List String) (scalars : Registry) :
    Except CommandError (Option (TypeGraph × Registry × List Operation)) := do
  let graph ← (TypeGraph.parse schema).mapError .schema
  match (bindAll graph 0 documents).toOption with
  | none => return none
  | some operations =>
      (checkScalars graph scalars).mapError .scalar
      return some (graph, scalars, operations)

/-- The module that is generated from what the stages come to. -/
def moduleOf (passed : TypeGraph × Registry × List Operation) (options : Bindings.Options) : String :=
  Bindings.generate passed.1 passed.2.2 passed.2.1 options

/-- The library gives a module just if all stages are passed, and then the one
generated from what they give. -/
theorem compile_eq_ok {schema : String} {documents : List String} {scalars : Registry}
    {options : Bindings.Options} {code : String} :
    compile schema documents scalars options = .ok code ↔
      ∃ passed, stages schema documents scalars = .ok (some passed) ∧ moduleOf passed options = code := by
  simp only [compile, stages, Except.bind_eq_ok, Except.mapError_eq_ok]
  constructor
  · rintro ⟨graph, hparse, operations, hbind, u, hcheck, hcode⟩
    refine ⟨(graph, scalars, operations), ⟨graph, hparse, ?_⟩, Except.ok.inj hcode⟩
    rw [hbind]
    exact Except.bind_eq_ok.2 ⟨u, Except.mapError_eq_ok.2 hcheck, rfl⟩
  · rintro ⟨passed, ⟨graph, hparse, hpassed⟩, rfl⟩
    cases hbind : bindAll graph 0 documents with
    | error e =>
        rw [hbind] at hpassed
        cases hpassed
    | ok operations =>
        rw [hbind] at hpassed
        obtain ⟨u, hcheck, hsame⟩ := Except.bind_eq_ok.1 hpassed
        cases hsame
        exact ⟨graph, hparse, operations, hbind, u, Except.mapError_eq_ok.1 hcheck, rfl⟩

theorem exists_compile {schema : String} {documents : List String} {scalars : Registry}
    {options : Bindings.Options} :
    (∃ code, compile schema documents scalars options = .ok code) ↔
      ∃ passed, stages schema documents scalars = .ok (some passed) := by
  simp only [compile_eq_ok]
  constructor
  · rintro ⟨code, passed, hpassed, -⟩
    exact ⟨passed, hpassed⟩
  · rintro ⟨passed, hpassed⟩
    exact ⟨_, passed, hpassed, rfl⟩

section

variable {folder : Folder} {schema : String} {documents : List String} {scalars : Registry} {project : Config}

/-- Each document is bound by itself, so that one of them failing is as good as the first one failing. -/
theorem bindDocuments_comesTo (graph : TypeGraph) (verbose : Bool) {paths : List Path}
    (hread : List.Forall₂ (fun path text => folder.read? path = some text) paths documents) (index : Nat) :
    Task.ComesTo (bindDocuments Folder.surroundings graph verbose paths) folder verbose
      (.ok (bindAll graph index documents).toOption) := by
  induction hread generalizing index with
  | nil => exact .pure _
  | @cons path text paths documents hpath hrest ih =>
      rw [bindDocuments]
      refine .whenVerbose _ ((Task.ComesTo.readFile hpath).bind ?_)
      rw [bindAll]
      cases GraphClient.bind graph text with
      | error e =>
          have hreport : Task.ComesTo
              (liftM (Folder.surroundings.report path e) : Task (StateM Folder) Unit) folder
              verbose (.ok ()) := .of_quiet fun _ => rfl
          exact hreport.bind ((ih (index + 1)).bind (.pure _))
      | ok bound =>
          refine .whenVerbose _ ((ih (index + 1)).bind ?_)
          cases bindAll graph (index + 1) documents with
          | error e => exact .pure _
          | ok later => exact .pure _

theorem loadGraph_comesTo {verbose : Bool} {path : Path} (hpath : project.schema = some path)
    (hread : folder.read? path = some schema) :
    Task.ComesTo (loadGraph Folder.surroundings project) folder verbose
      ((TypeGraph.parse schema).mapError .schema) := by
  rw [loadGraph, hpath]
  refine (Task.ComesTo.readFile hread).bind ?_
  cases TypeGraph.parse schema with
  | error e => exact .throw _
  | ok graph => exact .pure _

theorem loadScalars_comesTo {verbose : Bool} (hscalars : project.registry = .ok scalars) :
    Task.ComesTo (loadScalars project) folder verbose (.ok scalars) := by
  rw [loadScalars, hscalars]
  exact .pure _

/-- Reading a project from its folder comes to what the stages come to. -/
theorem loadAll_comesTo (hholds : folder.Holds project schema documents scalars) (verbose : Bool) :
    Task.ComesTo (loadAll Folder.surroundings project verbose) folder verbose
      (stages schema documents scalars) := by
  obtain ⟨⟨path, hpath, hread⟩, hdocuments, hscalars⟩ := hholds
  have hgraph : Task.ComesTo (loadGraph Folder.surroundings project) folder verbose
      ((TypeGraph.parse schema).mapError .schema) := loadGraph_comesTo hpath hread
  rw [loadAll, stages]
  cases hparse : TypeGraph.parse schema with
  | error e =>
      rw [hparse] at hgraph
      exact hgraph.bind_error
  | ok graph =>
      rw [hparse] at hgraph
      refine hgraph.bind ((loadScalars_comesTo hscalars).bind
        ((bindDocuments_comesTo graph verbose hdocuments 0).bind ?_))
      change Task.ComesTo _ _ _ (match (bindAll graph 0 documents).toOption with
        | none => .ok none
        | some operations =>
            (checkScalars graph scalars).mapError .scalar >>= fun _ =>
              .ok (some (graph, scalars, operations)))
      cases (bindAll graph 0 documents).toOption with
      | none => exact .pure _
      | some operations =>
          cases checkScalars graph scalars with
          | error e => exact .throw _
          | ok u => exact .pure _

/-- `check` succeeds just if all stages are passed. -/
theorem runCheck_ends (hholds : folder.Holds project schema documents scalars) (verbose : Bool) :
    (Task.runIn (runCheck Folder.surroundings project verbose) folder).1 = .ok 0 ↔
      ∃ passed, stages schema documents scalars = .ok (some passed) := by
  obtain ⟨said, hload, -⟩ := (loadAll_comesTo hholds verbose).run
  rw [runCheck, Task.runIn_bind, hload]
  cases stages schema documents scalars with
  | error e => exact ⟨nofun, nofun⟩
  | ok passed =>
      cases passed with
      | none => exact ⟨nofun, nofun⟩
      | some passed => exact ⟨fun _ => ⟨passed, rfl⟩, fun _ => rfl⟩

/-- A module that is not generated leaves all files as they are. -/
theorem runGenerate_refuses (hholds : folder.Holds project schema documents scalars) (verbose : Bool)
    (hrefused : ∀ passed, stages schema documents scalars ≠ .ok (some passed)) :
    (Task.runIn (runGenerate Folder.surroundings project verbose) folder).1 ≠ .ok 0 ∧
      (Task.runIn (runGenerate Folder.surroundings project verbose) folder).2.files = folder.files := by
  obtain ⟨said, hload, -⟩ := (loadAll_comesTo hholds verbose).run
  rw [runGenerate, Task.runIn_bind, hload]
  cases hstages : stages schema documents scalars with
  | error e => exact ⟨nofun, rfl⟩
  | ok passed =>
      cases passed with
      | none => exact ⟨nofun, rfl⟩
      | some passed => exact absurd hstages (hrefused passed)

/-- A module is printed if the project has no output. -/
theorem runGenerate_prints (hholds : folder.Holds project schema documents scalars) (verbose : Bool)
    {passed : TypeGraph × Registry × List Operation}
    (hpassed : stages schema documents scalars = .ok (some passed))
    (houtput : project.output = none) :
    ∃ said, Task.runIn (runGenerate Folder.surroundings project verbose) folder =
        (.ok 0, folder.saying (said ++ moduleOf passed project.options)) ∧
      (verbose = false → said = "") := by
  obtain ⟨said, hload, hquiet⟩ := (loadAll_comesTo hholds verbose).run
  refine ⟨said, ?_, hquiet⟩
  rw [runGenerate, Task.runIn_bind, hload, hpassed, houtput, ← folder.saying_saying]
  rfl

/-- A module is written where the project wants it, and then it can be read there; a command that
cannot write it does not succeed. -/
theorem runGenerate_writes (hholds : folder.Holds project schema documents scalars) (verbose : Bool)
    {passed : TypeGraph × Registry × List Operation}
    (hpassed : stages schema documents scalars = .ok (some passed))
    {path : Path} (houtput : project.output = some path) :
    ∃ ending after, Task.runIn (runGenerate Folder.surroundings project verbose) folder = (ending, after) ∧
      (ending = .ok 0 ↔ folder.Writable path) ∧
      (ending = .ok 0 → after.read? path = some (moduleOf passed project.options)) := by
  obtain ⟨said, hload, -⟩ := (loadAll_comesTo hholds verbose).run
  obtain ⟨graph, registry, operations⟩ := passed
  rw [runGenerate, Task.runIn_bind, hload, hpassed, houtput]
  dsimp only
  rw [Task.runIn_bind, Task.runIn_write, Folder.writable_congr (f := folder) (g := folder.saying said) rfl,
    Folder.writable_iff (Bindings.generate graph operations registry project.options)]
  cases hwrite : (folder.saying said).write? path
    (Bindings.generate graph operations registry project.options) with
  | none => exact ⟨_, _, rfl, ⟨nofun, nofun⟩, nofun⟩
  | some after =>
      exact ⟨_, _, rfl, ⟨fun _ => ⟨after, rfl⟩, fun _ => rfl⟩,
        fun _ => (Folder.read?_saying ..).trans (Folder.read?_of_write? hwrite)⟩

/-- `generate` succeeds just if all stages are passed and the output can be written. -/
theorem runGenerate_ends (hholds : folder.Holds project schema documents scalars) (verbose : Bool) :
    (Task.runIn (runGenerate Folder.surroundings project verbose) folder).1 = .ok 0 ↔
      (∃ passed, stages schema documents scalars = .ok (some passed)) ∧
        ∀ path, project.output = some path → folder.Writable path := by
  by_cases hpassed : ∃ passed, stages schema documents scalars = .ok (some passed)
  · obtain ⟨passed, hpassed⟩ := hpassed
    cases houtput : project.output with
    | none =>
        obtain ⟨said, hrun, -⟩ := runGenerate_prints hholds verbose hpassed houtput
        rw [hrun]
        exact ⟨fun _ => ⟨⟨passed, hpassed⟩, nofun⟩, fun _ => rfl⟩
    | some path =>
        obtain ⟨ending, after, hrun, hending, -⟩ := runGenerate_writes hholds verbose hpassed houtput
        rw [hrun, hending]
        constructor
        · rintro hwritable
          refine ⟨⟨passed, hpassed⟩, ?_⟩
          rintro _ ⟨⟩
          exact hwritable
        · rintro ⟨-, hwritable⟩
          exact hwritable path rfl
  · have hrefuses := runGenerate_refuses hholds verbose fun passed hsome => hpassed ⟨passed, hsome⟩
    exact ⟨fun hending => absurd hending hrefuses.1, fun hboth => absurd hboth.1 hpassed⟩

section

variable {asked : Option Path} {config : Config} {verbose : Bool} {inputs : Inputs} {output : Option Path}
  {runtime : Option String} {skipOperations : Bool}

/-- Finding the project leaves nothing behind. -/
theorem runIn_findConfig (hfind : folder.findConfig? asked = some config) :
    Task.runIn (findConfig Folder.surroundings asked) folder = (.ok config, folder) := by
  have hfound : Task.ComesTo (findConfig Folder.surroundings asked) folder false (.ok config) :=
    findConfig_comesTo hfind
  obtain ⟨said, hrun, hquiet⟩ := hfound.run
  rw [hrun, hquiet rfl, folder.saying_empty]

theorem runIn_generate (hfind : folder.findConfig? asked = some config) :
    runIn folder ⟨verbose, asked, .generate inputs output runtime skipOperations⟩ =
      Task.runIn (runGenerate Folder.surroundings
        (config.generating inputs output runtime skipOperations) verbose)
        folder := by
  change Task.runIn (run _ _) folder = _
  rw [run, Task.runIn_bind, runIn_findConfig hfind]
  rfl

theorem runIn_check (hfind : folder.findConfig? asked = some config) :
    runIn folder ⟨verbose, asked, .check inputs⟩ =
      Task.runIn (runCheck Folder.surroundings (config.withInputs inputs) verbose) folder := by
  change Task.runIn (run _ _) folder = _
  rw [run, Task.runIn_bind, runIn_findConfig hfind]

/-- How the commands on a project end, next to what the library makes of the same texts. -/
structure Agree (folder : Folder) (project : Config) (verbose : Bool) (compiled : Except CompileError String)
    (generated checked : Except CommandError Nat × Folder) : Prop where
  /-- `generate` succeeds just if there is a module and it can be written. -/
  generates : generated.1 = .ok 0 ↔
    (∃ code, compiled = .ok code) ∧ ∀ path, project.output = some path → folder.Writable path
  /-- The output is the module. -/
  writes : ∀ {code path}, generated.1 = .ok 0 → compiled = .ok code → project.output = some path →
    generated.2.read? path = some code
  /-- Without an output the module is all that is printed. -/
  prints : ∀ {code}, generated.1 = .ok 0 → compiled = .ok code → project.output = none → verbose = false →
    generated.2.printed = folder.printed ++ code
  /-- `check` succeeds just if there is a module. -/
  checks : checked.1 = .ok 0 ↔ ∃ code, compiled = .ok code
  /-- If there is no module every file stays as it was. -/
  refuses : (∀ code, compiled ≠ .ok code) → generated.2.files = folder.files

/-- The commands agree with the library on every project whose texts can be read and
whose scalars have converters. -/
theorem commands_agree (hfind : folder.findConfig? asked = some config)
    (hholds : folder.Holds (config.generating inputs output runtime skipOperations) schema documents scalars)
    (verbose : Bool) :
    Agree folder (config.generating inputs output runtime skipOperations) verbose
      (compile schema documents scalars (config.generating inputs output runtime skipOperations).options)
      (runIn folder ⟨verbose, asked, .generate inputs output runtime skipOperations⟩)
      (runIn folder ⟨verbose, asked, .check inputs⟩) := by
  have hsame : folder.Holds (config.withInputs inputs) schema documents scalars :=
    ⟨hholds.schema, hholds.documents, hholds.scalars⟩
  rw [runIn_generate hfind, runIn_check hfind]
  refine ⟨?_, ?_, ?_, ?_, ?_⟩
  · rw [exists_compile]
    exact runGenerate_ends hholds verbose
  · intro code path hending hcode houtput
    obtain ⟨passed, hpassed, rfl⟩ := compile_eq_ok.1 hcode
    obtain ⟨ending, after, hrun, -, hread⟩ := runGenerate_writes hholds verbose hpassed houtput
    rw [hrun] at hending ⊢
    exact hread hending
  · intro code hending hcode houtput hquiet
    obtain ⟨passed, hpassed, rfl⟩ := compile_eq_ok.1 hcode
    obtain ⟨said, hrun, hsaid⟩ := runGenerate_prints hholds verbose hpassed houtput
    rw [hrun, hsaid hquiet, String.empty_append]
    rfl
  · rw [exists_compile]
    exact runCheck_ends hsame verbose
  · intro hrefused
    exact (runGenerate_refuses hholds verbose fun passed hpassed =>
      hrefused _ (compile_eq_ok.2 ⟨passed, hpassed, rfl⟩)).2

end

end

/-- A project file that names a schema, a document and an output. -/
def sampleFile : String :=
  "\x7b\"schema\": \"schema.json\", \"operations\": [\"user.graphql\"], \"output\": \"api.rs\"\x7d"

def sampleProject : Config :=
  ⟨some ⟨"schema.json"⟩, [⟨"user.graphql"⟩], some ⟨"api.rs"⟩, .empty, ⟨none, none, none⟩⟩

def sampleSchemaText : String :=
  "\x7b\"__schema\": \x7b\"types\": [\x7b\"kind\": \"OBJECT\", \"name\": \"Query\", \"fields\": " ++
    "[\x7b\"name\": \"name\", \"type\": \x7b\"kind\": \"SCALAR\", \"name\": \"String\"\x7d\x7d]\x7d]\x7d\x7d"

def sampleDocument : String := "query User \x7b name \x7d"

def sampleFolder : Folder :=
  .ofFiles [("livegql.json", sampleFile), ("schema.json", sampleSchemaText), ("user.graphql", sampleDocument)]

theorem findConfig?_sampleFolder : sampleFolder.findConfig? none = some sampleProject := by
  have hread : sampleFolder.read? Config.fileName = some sampleFile := by decide +kernel
  have hparse : Config.parse? sampleFile = some sampleProject := by cbv
  have hparent : Config.fileName.parent? = some ⟨""⟩ := by decide +kernel
  have hjoin : ∀ path ∈ [Path.mk "schema.json", ⟨"user.graphql"⟩, ⟨"api.rs"⟩],
      Path.join ⟨""⟩ path = path := by
    decide +kernel
  have hresolve : sampleProject.resolve ⟨""⟩ = sampleProject := by
    simp only [Config.resolve, sampleProject, Option.map_some, List.map_cons, List.map_nil,
      hjoin ⟨"schema.json"⟩ (by simp), hjoin ⟨"user.graphql"⟩ (by simp), hjoin ⟨"api.rs"⟩ (by simp)]
  simp only [Folder.findConfig?, Folder.loadConfig?, hread, hparse, hparent, hresolve,
    Option.isSome_some, if_true, Option.bind_eq_bind, Option.bind_some, Option.pure_def]

/-- The project of the folder with an output from the command line. -/
def sampleGenerated : Config := sampleProject.generating ⟨none, [], []⟩ (some ⟨"bindings.rs"⟩) none false

theorem commands_agree_sampleFolder :
    sampleFolder.findConfig? none = some sampleProject ∧
      sampleFolder.Holds sampleGenerated sampleSchemaText [sampleDocument] .standard ∧
      Agree sampleFolder sampleGenerated false
        (compile sampleSchemaText [sampleDocument] .standard sampleGenerated.options)
        (runIn sampleFolder ⟨false, none, .generate ⟨none, [], []⟩ (some ⟨"bindings.rs"⟩) none false⟩)
        (runIn sampleFolder ⟨false, none, .check ⟨none, [], []⟩⟩) := by
  have hholds : sampleFolder.Holds sampleGenerated sampleSchemaText [sampleDocument] .standard :=
    ⟨⟨⟨"schema.json"⟩, rfl, by decide +kernel⟩, .cons (by decide +kernel) .nil, rfl⟩
  exact ⟨findConfig?_sampleFolder, hholds, commands_agree findConfig?_sampleFolder hholds false⟩

end GraphClient.Project
