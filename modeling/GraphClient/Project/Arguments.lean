import GraphClient.Project.Path

/-! The words on the command line. Options have long names and some have one letter; letters can be put
together, and a value stands in the same word or in the next one. Every option but `--scalar` is given
once at most. Two options may stand before the command as well as behind it. -/

namespace GraphClient.Project

/-- What a command compiles. -/
structure Inputs where
  schema : Option Path
  operations : List Path
  /-- Scalars of the schema, each with the scalar that it is like. -/
  scalars : List (String × String)
  deriving DecidableEq, Repr

inductive Command
  | generate (inputs : Inputs) (output : Option Path) (runtime : Option String) (skipOperations : Bool)
  | check (inputs : Inputs)
  | inspect (schema : Option Path) (typeName : Option String)
  | version
  deriving DecidableEq, Repr

/-- What is asked for. -/
structure Arguments where
  verbose : Bool
  /-- The project file. -/
  config : Option Path
  command : Command
  deriving DecidableEq, Repr

/-- Why there is nothing to do, or nothing that can be done. -/
inductive Usage
  | help
  | versionText
  /-- There are no words at all. -/
  | helpForNothing
  | missingCommand
  | unknownCommand
  | unknownOption
  /-- A value is missing or empty. -/
  | missingValue
  | surplusValue
  | invalidScalar
  | repeatedOption
  deriving DecidableEq, Repr

inductive OptionName
  | verbose
  | config
  | schema
  | scalar
  | output
  | runtime
  | skipOperations
  | type
  | help
  | version
  deriving DecidableEq, Repr

namespace OptionName

def long : OptionName → String
  | verbose => "verbose"
  | config => "config"
  | schema => "schema"
  | scalar => "scalar"
  | output => "output"
  | runtime => "runtime-crate"
  | skipOperations => "no-operations"
  | type => "type"
  | help => "help"
  | version => "version"

def letter? : OptionName → Option Char
  | verbose => some 'v'
  | config => some 'c'
  | schema => some 's'
  | output => some 'o'
  | type => some 't'
  | help => some 'h'
  | version => some 'V'
  | scalar | runtime | skipOperations => none

def takesValue : OptionName → Bool
  | config | schema | scalar | output | runtime | type => true
  | verbose | skipOperations | help | version => false

end OptionName

/-- A scalar and the one that it is like, around the first equals sign. -/
def scalarPair? (text : String) : Option (String × String) :=
  let cs := text.toList
  let name := cs.takeWhile (· != '=')
  let like := (cs.dropWhile (· != '=')).drop 1
  if name.isEmpty || like.isEmpty then none else some (String.ofList name, String.ofList like)

/-- What is wrong with the value of an option. -/
def valueFault? (option : OptionName) (value : String) : Option Usage :=
  match option with
  | .config | .schema | .output => if value.isEmpty then some .missingValue else none
  | .scalar => if (scalarPair? value).isNone then some .invalidScalar else none
  | _ => none

/-- What may stand on one level of the command line: before the command, or behind it. -/
structure Level where
  options : List OptionName
  /-- Whether documents are named. -/
  documents : Bool
  /-- Whether a command follows. -/
  commands : Bool

/-- The last thing that was given, which is looked at when the next one comes. -/
inductive Pending
  | nothing
  | option (name : OptionName) (value : Option String)
  | documents (paths : List String)

/-- What was given so far, in order. -/
structure Given where
  options : List (OptionName × String)
  documents : List String
  pending : Pending

namespace Given

def nothing : Given := ⟨[], [], .nothing⟩

def has (g : Given) (option : OptionName) : Bool := g.options.any (·.1 = option)

def value? (g : Given) (option : OptionName) : Option String := g.options.lookup option

/-- Takes an option with its value. -/
def take (g : Given) (option : OptionName) (value : String) : Except Usage Given :=
  if option ≠ .scalar ∧ g.has option then .error .repeatedOption
  else match valueFault? option value with
    | some fault => .error fault
    | none => .ok { g with options := g.options ++ [(option, value)], pending := .nothing }

/-- Looks at what came last. -/
def settle (g : Given) : Except Usage Given :=
  match g.pending with
  | .nothing => .ok g
  | .option _ none => .error .missingValue
  | .option name (some value) => g.take name value
  | .documents paths =>
      if paths.contains "" then .error .missingValue
      else .ok { g with documents := g.documents ++ paths, pending := .nothing }

/-- An option that stands in a word, with the value in the same word. -/
def giveOption (g : Given) (option : OptionName) (value : Option String) : Except Usage Given := do
  let g ← g.settle
  if option.takesValue then
    match value with
    | some v => g.take option v
    | none => return { g with pending := .option option none }
  else match option with
    | .help => throw .help
    | .version => throw .versionText
    | _ => g.take option ""

/-- A document. -/
def giveDocument (g : Given) (path : String) : Except Usage Given :=
  match g.pending with
  | .documents paths => .ok { g with pending := .documents (paths ++ [path]) }
  | _ => g.settle.map fun g => { g with pending := .documents [path] }

end Given

/-- A word that starts with two dashes, without them. -/
def giveLong (level : Level) (g : Given) (word : List Char) : Except Usage Given :=
  let name := String.ofList (word.takeWhile (· != '='))
  let value := match word.dropWhile (· != '=') with
    | _ :: value => some (String.ofList value)
    | [] => none
  match level.options.find? fun o => o.long == name with
  | none => .error .unknownOption
  | some option =>
      if !option.takesValue && value.isSome then .error .surplusValue else g.giveOption option value

/-- A word that starts with one dash, without it. -/
def giveLetters (level : Level) (g : Given) : List Char → Except Usage Given
  | [] => .ok g
  | c :: rest =>
      match level.options.find? fun o => o.letter? == some c with
      | none => .error .unknownOption
      | some option =>
          if option.takesValue then
            g.giveOption option (match rest with
              | [] => none
              | '=' :: value => some (String.ofList value)
              | value => some (String.ofList value))
          else do giveLetters level (← g.giveOption option none) rest

/-- The commands, with `help` for each of them. -/
def commandNames : List String := ["generate", "check", "inspect", "version", "help"]

/-- A word that nothing has a use for. -/
def surplusWord (level : Level) (onlyWords : Bool) (word : String) : Usage :=
  if level.commands && !(onlyWords && commandNames.contains word) then .unknownCommand else .unknownOption

/-- Takes the words of one level. Behind a word of two dashes no word is an option. A command ends the
level, with the words that follow it. -/
def scan (level : Level) (onlyWords : Bool) (g : Given) :
    List String → Except Usage (Given × Option (String × List String))
  | [] => .ok (g, none)
  | word :: rest =>
      let awaiting := match g.pending with
        | .option name none => some name
        | _ => none
      let asDocument : Except Usage (Given × Option (String × List String)) :=
        if level.documents then do scan level onlyWords (← g.giveDocument word) rest
        else .error (surplusWord level onlyWords word)
      if onlyWords then asDocument
      else if level.commands && awaiting.isNone && commandNames.contains word then .ok (g, some (word, rest))
      else match word.toList with
        | ['-', '-'] => scan level true g rest
        | '-' :: '-' :: long => do scan level false (← giveLong level g long) rest
        | '-' :: c :: letters => do scan level false (← giveLetters level g (c :: letters)) rest
        | _ =>
            match awaiting with
            | some name => scan level false { g with pending := .option name (some word) } rest
            | none => asDocument

/-- The options that may stand anywhere. -/
def globalOptions : List OptionName := [.verbose, .config, .help]

/-- Before the command. -/
def topLevel : Level := ⟨globalOptions ++ [.version], false, true⟩

/-- Behind a command. -/
def levelOf (command : String) : Level :=
  match command with
  | "generate" => ⟨globalOptions ++ [.schema, .scalar, .output, .runtime, .skipOperations], true, false⟩
  | "check" => ⟨globalOptions ++ [.schema, .scalar], true, false⟩
  | "inspect" => ⟨globalOptions ++ [.schema, .type], false, false⟩
  | _ => ⟨globalOptions, false, false⟩

def pathOf (g : Given) (option : OptionName) : Option Path := (g.value? option).map Path.mk

def inputsOf (g : Given) : Inputs :=
  ⟨pathOf g .schema, g.documents.map Path.mk,
    g.options.filterMap fun o => if o.1 = .scalar then scalarPair? o.2 else none⟩

def commandOf (name : String) (g : Given) : Command :=
  match name with
  | "generate" =>
      .generate (inputsOf g) (pathOf g .output) (g.value? .runtime) (g.has .skipOperations)
  | "check" => .check (inputsOf g)
  | "inspect" => .inspect (pathOf g .schema) (g.value? .type)
  | _ => .version

/-- What `help` says to the words behind it: the name of a command at most. -/
def helpAbout : List String → Usage
  | [] => .help
  | [name] => if commandNames.contains name then .help else .unknownCommand
  | _ => .unknownCommand

/-- Reads the words behind the program's name. What stands behind the command counts before what stands
in front of it. -/
def Arguments.read (words : List String) : Except Usage Arguments := do
  let (top, command) ← scan topLevel false .nothing words
  match command with
  | none =>
      let top ← top.settle
      throw (if top.options.isEmpty then .helpForNothing else .missingCommand)
  | some (name, rest) =>
      if name = "help" then throw (helpAbout rest)
      let (own, _) ← scan (levelOf name) false .nothing rest
      let own ← own.settle
      let top ← top.settle
      return ⟨top.has .verbose || own.has .verbose, pathOf own .config <|> pathOf top .config,
        commandOf name own⟩

end GraphClient.Project
