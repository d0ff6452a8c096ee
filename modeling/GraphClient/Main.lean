import GraphClient.Project.Commands

/-! The program on the command line: commands over the files of the system, text on the standard streams. -/

namespace GraphClient.Project

/-- The files and streams of the system. -/
def systemSurroundings : Surroundings IO where
  isFile path := do
    match ← (IO.FS.readFile path.text).toBaseIO with
    | .ok _ => return true
    | .error _ => return false
  read path := do
    match ← (IO.FS.readFile path.text).toBaseIO with
    | .ok text => return some text
    | .error _ => return none
  write path text := do
    match ← (IO.FS.writeFile path.text text).toBaseIO with
    | .ok _ => return true
    | .error _ => return false
  print text := IO.print text
  report path error := do
    IO.eprintln (path.text ++ ": " ++ error.fault.message ++ " (" ++ error.fault.code ++ ")")
    if let some help := error.fault.help? then IO.eprintln ("  " ++ help)

def usageText : String :=
  "Usage: livegql [-v] [-c FILE] <COMMAND>\n\nCommands:\n" ++
    "  generate  Generate bindings\n" ++
    "  check     Build the type graph and bind documents\n" ++
    "  inspect   Print the type graph\n" ++
    "  version   Print version information\n"

/-- Tells why there is nothing to run, and gives the exit code. -/
def explainUsage : Usage → IO UInt32
  | .help => do
      IO.print usageText
      return 0
  | .versionText => do
      IO.print versionLine
      return 0
  | _ => do
      IO.eprint usageText
      return 2

def explainError (error : CommandError) : IO UInt32 := do
  IO.eprintln (error.message?.getD "invalid input" ++ " (" ++ error.code ++ ")")
  if let some help := error.help? then IO.eprintln ("  " ++ help)
  return 1

end GraphClient.Project

open GraphClient.Project in
def main (words : List String) : IO UInt32 := do
  match Arguments.read words with
  | .error usage => explainUsage usage
  | .ok arguments =>
      match ← (run systemSurroundings arguments).run with
      | .ok code => return code.toUInt32
      | .error error => explainError error
