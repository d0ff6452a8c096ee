import GraphClient.Text.Characters

/-! Source text as a tree. Types, methods and other blocks hold what stands between their braces, one
step further in; documentation is kept apart from code, so that free text can only ever be written
behind the mark of a documentation line. -/

namespace GraphClient.Bindings

/-- A piece of a generated module. -/
inductive Code
  /-- A line of code; the empty one has no indentation. -/
  | line (text : String)
  /-- A line of documentation. -/
  | doc (text : String)
  /-- A public type: its keyword, its name and what it holds. -/
  | type (keyword name : String) (body : List Code)
  /-- A public method: its name, the rest of its head, and its body. -/
  | method (name signature : String) (body : List Code)
  /-- Anything else in braces. -/
  | block (head : String) (body : List Code)

namespace Code

def blank : Code := line ""

def indentation (depth : Nat) : String := String.join (List.replicate depth "    ")

/-- A line that is not empty. -/
def renderLine (depth : Nat) (text : String) : String := indentation depth ++ text ++ "\n"

mutual

/-- The text of a piece that stands `depth` steps in. -/
def render (depth : Nat) : Code → String
  | line text => if text.isEmpty then "\n" else renderLine depth text
  | doc text => renderLine depth (if text.isEmpty then "///" else "/// " ++ text)
  | type keyword name body =>
      renderLine depth ("pub " ++ keyword ++ " " ++ name ++ " \x7b") ++ renderAll (depth + 1) body ++
        renderLine depth "\x7d"
  | method name signature body =>
      renderLine depth ("pub fn " ++ name ++ signature ++ " \x7b") ++ renderAll (depth + 1) body ++
        renderLine depth "\x7d"
  | block head body =>
      renderLine depth (head ++ " \x7b") ++ renderAll (depth + 1) body ++ renderLine depth "\x7d"

def renderAll (depth : Nat) : List Code → String
  | [] => ""
  | c :: rest => render depth c ++ renderAll depth rest

end

theorem renderAll_append (depth : Nat) (first second : List Code) :
    renderAll depth (first ++ second) = renderAll depth first ++ renderAll depth second := by
  induction first with
  | nil => rw [List.nil_append, renderAll, String.empty_append]
  | cons c rest ih => rw [List.cons_append, renderAll, renderAll, ih, String.append_assoc]

theorem renderAll_singleton (depth : Nat) (c : Code) : renderAll depth [c] = render depth c := by
  rw [renderAll, renderAll, String.append_empty]

/-- The lines of a text; a line feed at the end starts no line. -/
def textLines (text : List Char) : List (List Char) :=
  let lines := text.splitOn '\n'
  if lines.getLast? = some [] then lines.dropLast else lines

/-- A description as documentation, its lines without white space at the end. -/
def docs (description : Option String) : List Code :=
  match description with
  | none => []
  | some text => (textLines text.toList).map fun l => doc (String.ofList (Text.trimRight l))

/-- The names of the types in a piece of code, outermost ones only. -/
def typeNames (code : List Code) : List String :=
  code.filterMap fun
    | type _ name _ => some name
    | _ => none

/-- The names of the methods in a piece of code, outermost ones only. -/
def methodNames (code : List Code) : List String :=
  code.filterMap fun
    | method name _ _ => some name
    | _ => none

end Code

end GraphClient.Bindings
