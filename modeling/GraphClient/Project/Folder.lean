import GraphClient.Project.Commands

/-! Commands in a folder that is all there is: files are held as texts by their paths from the folder,
and directories are where files are. What is printed is kept. -/

namespace GraphClient.Project

/-- A folder with its files, and what was printed. -/
structure Folder where
  /-- By path from the folder, without steps that lead nowhere. -/
  files : Table String
  printed : String

namespace Folder

/-- The name of a file at the end of some steps. -/
def nameOf (place : List String) : String := "/".intercalate place

/-- The steps of a name. -/
def placeOf (name : String) : List String := (Path.mk name).steps.filter fun s => s ≠ "" ∧ s ≠ "."

def ofFiles (files : List (String × String)) : Folder :=
  ⟨.ofList (files.map fun e => (nameOf (placeOf e.1), e.2)), ""⟩

/-- Whether steps lead to a directory. -/
def isDirectory (f : Folder) (place : List String) : Bool :=
  place.isEmpty || f.files.names.any fun name =>
    decide (place.length < (placeOf name).length) && place.isPrefixOf (placeOf name)

/-- Where steps lead from a place; nothing if they leave the folder or go through something that is no
directory. -/
def walk (f : Folder) (place : List String) : List String → Option (List String)
  | [] => some place
  | step :: rest =>
      if !f.isDirectory place then none
      else if step = "" ∨ step = "." then walk f place rest
      else if step = ".." then if place.isEmpty then none else walk f place.dropLast rest
      else walk f (place ++ [step]) rest

/-- Where a path leads. -/
def locate? (f : Folder) (path : Path) : Option (List String) :=
  if path.text.isEmpty || !path.isRelative then none else f.walk [] path.steps

def read? (f : Folder) (path : Path) : Option String :=
  (f.locate? path).bind fun place => f.files.get? (nameOf place)

/-- The folder after writing a file; nothing if the path is that of a directory or leads nowhere. -/
def write? (f : Folder) (path : Path) (text : String) : Option Folder := do
  let place ← f.locate? path
  if f.isDirectory place then none else some { f with files := f.files.insert (nameOf place) text }

/-- The folder as the surroundings of a command. -/
def surroundings : Surroundings (StateM Folder) where
  isFile path := do return ((← get).read? path).isSome
  read path := do return (← get).read? path
  write path text := modifyGet fun f =>
    match f.write? path text with
    | some f => (true, f)
    | none => (false, f)
  print text := modify fun f => { f with printed := f.printed ++ text }
  report _ _ := pure ()

end Folder

/-- Runs a command in a folder: how it ends, and the folder after it. -/
def runIn (folder : Folder) (arguments : Arguments) : Except CommandError Nat × Folder :=
  StateT.run (ExceptT.run (run Folder.surroundings arguments)) folder

end GraphClient.Project
