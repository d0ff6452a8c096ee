import GraphClient.Json.Basic

/-! JSON values as records. A record with known fields is written as an object, in which members of
other names mean nothing, or as an array that gives the fields in their order and may stop early. A
known field may not come twice. -/

namespace GraphClient.Json

/-- Whether a value can be a record with these fields. -/
def isRecord (fields : List String) : Json → Bool
  | .object members => fields.all fun f => decide ((members.filter (·.1 == f)).length ≤ 1)
  | .array items => decide (items.length ≤ fields.length)
  | _ => false

/-- The value of a field of a record. -/
def field? (fields : List String) (name : String) : Json → Option Json
  | .object members => members.lookup name
  | .array items => (fields.idxOf? name).bind fun i => items[i]?
  | _ => none

theorem sizeOf_field?_lt {fields : List String} {name : String} {value data : Json}
    (h : data.field? fields name = some value) : sizeOf value < sizeOf data := by
  cases data with
  | object members => exact sizeOf_get?_lt h
  | array items =>
      simp only [field?, Option.bind_eq_some_iff] at h
      obtain ⟨i, -, hi⟩ := h
      exact sizeOf_item_lt (List.mem_of_getElem? hi)
  | _ => simp [field?] at h

/-! Each reader gets what the field holds, if it is there. -/

variable {α : Type}

/-- A field that has to be there. -/
def needed (read : Json → Option α) : Option Json → Option α
  | some value => read value
  | none => none

/-- A field that may be missing or null. -/
def optional (read : Json → Option α) : Option Json → Option (Option α)
  | none => some none
  | some .null => some none
  | some value => (read value).map some

/-- A field that may be missing. -/
def orDefault (default : α) (read : Json → Option α) : Option Json → Option α
  | none => some default
  | some value => read value

/-- The items of an array, each of which has to be readable. -/
def listOf (read : Json → Option α) : Json → Option (List α)
  | .array items => items.mapM read
  | _ => none

end GraphClient.Json
