import GraphClient.Proofs.Except
import GraphClient.Scalar.Registry
import GraphClient.Schema.TypeGraph

/-! Converters and registries. A converter of any name converts as the standard one at the end of its
names does, and whatever is registered, the scalars of every schema keep a converter. -/

namespace GraphClient

namespace Converter

/-- A converter reads what the standard converter at the end of its names reads. -/
theorem read_eq_ok {c : Converter} {data : Json} {v : ScalarValue} :
    c.read data = .ok v ↔ c.base.read data = .ok v := by
  induction c with
  | standard s =>
      rw [read, base, Except.mapError_eq_ok]
  | aliased name target ih =>
      rw [read, base, ← ih, Except.mapError_eq_ok]

@[simp] theorem write_eq (c : Converter) (value : ScalarValue) : c.write value = value.toJson := by
  induction c with
  | standard s => rfl
  | aliased name target ih => exact ih

theorem default_eq (c : Converter) : c.default = c.base.default := by
  induction c with
  | standard s => rfl
  | aliased name target ih => exact ih

theorem typeText_eq (c : Converter) : c.typeText = c.base.typeText := by
  induction c with
  | standard s => rfl
  | aliased name target ih => exact ih

/-- No converter gives values of the type that takes each value as it is. -/
theorem typeText_ne_any (c : Converter) : c.typeText ≠ "rt::Value" := by
  rw [typeText_eq]
  cases c.base <;> decide

end Converter

namespace Registry

/-- The registries that come about by registering standard converters and further names. -/
inductive Reached : Registry → Prop
  | builtin : Reached .builtin
  | standard : Reached .standard
  | register {r : Registry} (hr : Reached r) (name : String) (s : StandardScalar) :
      Reached (r.register name (.standard s))
  | registerAlias {r r' : Registry} (hr : Reached r) {name target : String}
      (halias : r.registerAlias name target = .ok r') : Reached r'

variable {r r' : Registry}

theorem find?_register (r : Registry) (name other : String) (c : Converter) :
    (r.register name c).find? other = if other = name then some c else r.find? other :=
  Table.get?_insert r.table name other c

/-- A name that has a converter keeps one. -/
theorem isSome_find?_register {other : String} (hother : (r.find? other).isSome)
    (name : String) (c : Converter) :
    ((r.register name c).find? other).isSome := by
  rw [find?_register]
  split
  · rfl
  · exact hother

theorem registerAlias_eq_ok {name target : String} :
    r.registerAlias name target = .ok r' ↔ ∃ c, r.find? target = some c ∧
      r' = r.register name (.aliased name c) := by
  rw [registerAlias, resolve, Except.map_eq_ok]
  cases r.find? target with
  | none => simp
  | some c => simp [eq_comm]

/-- The scalars of every schema have a converter in every registry. -/
theorem Reached.isSome_builtin (hr : r.Reached) {name : String} (hname : name ∈ builtinScalars) :
    (r.find? name).isSome := by
  induction hr with
  | builtin => exact (by decide : ∀ name ∈ builtinScalars, (Registry.builtin.find? name).isSome) name hname
  | standard => exact (by decide : ∀ name ∈ builtinScalars, (Registry.standard.find? name).isSome) name hname
  | register hr other s ih => exact isSome_find?_register ih other (.standard s)
  | @registerAlias r r' hr other target halias ih =>
      obtain ⟨c, -, rfl⟩ := registerAlias_eq_ok.1 halias
      exact isSome_find?_register ih other (.aliased other c)

end Registry

end GraphClient
