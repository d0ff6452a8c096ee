import GraphClient.Scalar.Converter
import GraphClient.Table

/-! Which converter a scalar of a schema has. The scalars of every schema are always registered. -/

namespace GraphClient

/-- The converters by the names of their scalars, in order of registration. -/
structure Registry where
  table : Table Converter

namespace Registry

/-- Puts a converter under a name, in place of the one before it. -/
def register (r : Registry) (name : String) (converter : Converter) : Registry :=
  ⟨r.table.insert name converter⟩

def registerAll (r : Registry) (scalars : List StandardScalar) : Registry :=
  scalars.foldl (fun r s => r.register s.name (.standard s)) r

/-- The scalars of every schema. -/
def builtin : Registry := registerAll ⟨.empty⟩ StandardScalar.builtin

/-- All standard scalars. -/
def standard : Registry := builtin.registerAll StandardScalar.custom

def find? (r : Registry) (name : String) : Option Converter := r.table.get? name

def resolve (r : Registry) (name : String) : Except ScalarError Converter :=
  match r.find? name with
  | some c => .ok c
  | none => .error (.unknown name)

/-- Registers a name for the converter that another name has now. -/
def registerAlias (r : Registry) (name target : String) : Except ScalarError Registry :=
  (r.resolve target).map fun c => r.register name (.aliased name c)

def contains (r : Registry) (name : String) : Bool := r.table.contains name

def names (r : Registry) : List String := r.table.names

end Registry

end GraphClient
