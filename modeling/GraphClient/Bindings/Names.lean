import GraphClient.Schema.TypeGraph
import GraphClient.Text.Casing

/-! Names in generated code that cannot be taken over from the schema as they are: the members of
enumerations, the methods of fields, and the marks around the text of an operation. -/

namespace GraphClient.Bindings

/-- The name of a member by itself: Pascal case, behind a `V` if it would not start with a letter. -/
def memberName (wireName : String) : String :=
  let base := Casing.pascal wireName
  let named := match base.toList with
    | [] => "V"
    | c :: _ => if c.isDigit then "V" ++ base else base
  if named = "Self" then "Self_" else named

/-- A name that is not taken: the base itself, or the base with the least number from 2 on. Of as many
numbers as there are taken names and one more, one is free. -/
def freshName (taken : List String) (base : String) : String :=
  if base ∉ taken then base
  else
    let candidates := (List.range (taken.length + 1)).map fun i => base ++ toString (i + 2)
    (candidates.find? (· ∉ taken)).getD base

/-- The names of members, where `taken` are the names of those before. -/
def memberNamesFrom (taken : List String) : List String → List String
  | [] => []
  | wireName :: rest =>
      let name := freshName taken (memberName wireName)
      name :: memberNamesFrom (name :: taken) rest

/-- The names of the members of one enumeration. -/
def memberNames (wireNames : List String) : List String := memberNamesFrom [] wireNames

/-- The methods that every object type has. -/
def reservedMethods : List String :=
  ["new", "from_object", "into_object", "object", "from_data", "patch", "typename"]

/-- The stem of the names of a field's methods. -/
def methodStem (field : FieldDefinition) : String :=
  if field.name ∈ reservedMethods then field.name ++ "_field" else field.name

/-- The method that reads a field. -/
def getterName (field : FieldDefinition) : String := Casing.escape (methodStem field)

def setterName (field : FieldDefinition) : String := "set_" ++ methodStem field

def hookName (field : FieldDefinition) : String := "on_" ++ methodStem field ++ "_changed"

def listName (field : FieldDefinition) : String := methodStem field ++ "_list"

/-- The longest run of number signs right behind a quote, given the run that is going on. -/
def longestRun (current : Option Nat) (longest : Nat) : List Char → Nat
  | [] => longest
  | '"' :: rest => longestRun (some 0) longest rest
  | '#' :: rest =>
      match current with
      | some run => longestRun (some (run + 1)) (max longest (run + 1)) rest
      | none => longestRun none longest rest
  | _ :: rest => longestRun none longest rest

/-- How many number signs have to stand around the quotes of a text that is taken verbatim. -/
def hashCount (text : String) : Nat := longestRun none 0 text.toList + 1

end GraphClient.Bindings
