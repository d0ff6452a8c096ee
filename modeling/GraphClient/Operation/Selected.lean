import GraphClient.Document.Tree

/-! What an operation selects, independent of how it was written: for each type the fields in order of
first selection, whether the type's name is asked for, and for an abstract type what is selected from
single object types. Selections of one field or one object type are merged into one. -/

namespace GraphClient

mutual

/-- A selected field; a field of a composite type comes with what is selected from it. -/
inductive SelectedField
  | mk (name wireName : String) (selection : Option Selected)

/-- What is selected from a type: fields under their wire names, and under the names of object types what
is selected from these. -/
inductive Selected
  | mk (typeName : String) (fieldEntries : List (String × SelectedField)) (typenameSelected : Bool)
      (variantEntries : List (String × Selected))

end

namespace SelectedField

/-- The name in generated code. -/
def name : SelectedField → String
  | mk name _ _ => name

def wireName : SelectedField → String
  | mk _ wireName _ => wireName

def selection : SelectedField → Option Selected
  | mk _ _ selection => selection

end SelectedField

namespace Selected

def typeName : Selected → String
  | mk typeName _ _ _ => typeName

def fieldEntries : Selected → List (String × SelectedField)
  | mk _ fieldEntries _ _ => fieldEntries

/-- Whether `__typename` is selected. -/
def typenameSelected : Selected → Bool
  | mk _ _ typenameSelected _ => typenameSelected

def variantEntries : Selected → List (String × Selected)
  | mk _ _ _ variantEntries => variantEntries

def fields (s : Selected) : List SelectedField := s.fieldEntries.map (·.2)

def variants (s : Selected) : List Selected := s.variantEntries.map (·.2)

def empty (typeName : String) : Selected := mk typeName [] false []

def field? (s : Selected) (wireName : String) : Option SelectedField := s.fieldEntries.lookup wireName

def variant? (s : Selected) (typeName : String) : Option Selected := s.variantEntries.lookup typeName

def selectTypename (s : Selected) : Selected := mk s.typeName s.fieldEntries true s.variantEntries

/-- Puts an item behind the others, or merges it into the one under the same key. -/
def put {α : Type} (key : String) (new : α) (merge : α → α) : List (String × α) → List (String × α)
  | [] => [(key, new)]
  | (other, a) :: rest =>
      if other = key then (other, merge a) :: rest else (other, a) :: put key new merge rest

mutual

/-- Both selections in one; what the second adds comes behind. -/
def merge (a : Selected) : Selected → Selected
  | mk _ fields typenameSelected variants =>
      mk a.typeName (mergeFields a.fieldEntries fields) (a.typenameSelected || typenameSelected)
        (mergeVariants a.variantEntries variants)

def mergeFields (done : List (String × SelectedField)) :
    List (String × SelectedField) → List (String × SelectedField)
  | [] => done
  | (key, f) :: rest => mergeFields (put key f (join f) done) rest

/-- Adds a selection of a field to an earlier one. -/
def join : SelectedField → SelectedField → SelectedField
  | .mk _ _ none, earlier => earlier
  | .mk _ _ (some selection), earlier =>
      .mk earlier.name earlier.wireName (some (match earlier.selection with
        | some before => merge before selection
        | none => selection))

def mergeVariants (done : List (String × Selected)) : List (String × Selected) → List (String × Selected)
  | [] => done
  | (key, v) :: rest => mergeVariants (put key v (fun earlier => merge earlier v) done) rest

end

/-- The selection with one more field. -/
def withField (s : Selected) (wireName : String) (f : SelectedField) : Selected :=
  mk s.typeName (put wireName f (join f) s.fieldEntries) s.typenameSelected s.variantEntries

/-- The selection with one more selection from an object type. -/
def withVariant (s : Selected) (typeName : String) (v : Selected) : Selected :=
  mk s.typeName s.fieldEntries s.typenameSelected
    (put typeName v (fun earlier => merge earlier v) s.variantEntries)

end Selected

/-- A variable of an operation. -/
structure Variable where
  name : String
  /-- In the notation of queries. -/
  type : String
  /-- As written in the document. -/
  default : Option String
  deriving DecidableEq, Repr

/-- An operation whose selections agree with a schema. -/
structure Operation where
  name : String
  kind : OperationKind
  rootType : String
  selection : Selected
  variableDefinitions : List Variable
  /-- The text of the operation and of every fragment that it uses. -/
  source : String

end GraphClient
