import GraphClient.Number.Shortest

/-! JSON values. Objects are lists of members. A text may name a member twice: `Json.canonical` keeps
the last of them and sorts the names by code point, and all values that are stored or compared are
canonical. Numbers are whole when their text is a whole number of at most 64 bits, and binary
otherwise. -/

namespace GraphClient

/-- A JSON number. -/
inductive JsonNumber
  | whole (value : Int)
  | real (value : Binary64)
  deriving DecidableEq, Repr

/-- A JSON value. -/
inductive Json
  | null
  | bool (value : Bool)
  | number (value : JsonNumber)
  | string (value : String)
  | array (items : List Json)
  | object (members : List (String × Json))
  deriving Repr, Inhabited

namespace JsonNumber

/-- The least whole number of 64 bits with a sign. -/
def least : Int := -9223372036854775808

/-- The whole numbers of 64 bits with a sign. -/
def int64? (i : Int) : Option Int := if least ≤ i ∧ i < -least then some i else none

/-- The whole numbers that a text can give: 64 bits with or without a sign. -/
def inRange (i : Int) : Bool := decide (least ≤ i ∧ i < -2 * least)

def toBinary64 : JsonNumber → Binary64
  | .whole i => Binary64.ofInt i
  | .real x => x

/-- The text of a number: the digits of a whole one, the shortest decimal that reads back of a binary
one. -/
def text : JsonNumber → String
  | .whole i => toString i
  | .real x => String.ofList (x.write .json)

end JsonNumber

namespace Json

def whole (i : Int) : Json := .number (.whole i)

/-- The value of a member. -/
def get? (name : String) : Json → Option Json
  | .object members => members.lookup name
  | _ => none

/-- Puts a member into a sorted list of members, in place of one of the same name. -/
def insertMember (name : String) (value : Json) : List (String × Json) → List (String × Json)
  | [] => [(name, value)]
  | (other, v) :: rest =>
      if name = other then (name, value) :: rest
      else if name < other then (name, value) :: (other, v) :: rest
      else (other, v) :: insertMember name value rest

mutual

/-- The value with the members of every object sorted by name, the last of one name kept. -/
def canonical : Json → Json
  | .array items => .array (canonicalItems items)
  | .object members => .object ((canonicalMembers members).foldl (fun done m => insertMember m.1 m.2 done) [])
  | .null => .null
  | .bool b => .bool b
  | .number n => .number n
  | .string s => .string s

def canonicalItems : List Json → List Json
  | [] => []
  | item :: rest => canonical item :: canonicalItems rest

def canonicalMembers : List (String × Json) → List (String × Json)
  | [] => []
  | (name, value) :: rest => (name, canonical value) :: canonicalMembers rest

end

def string? : Json → Option String
  | .string s => some s
  | _ => none

def bool? : Json → Option Bool
  | .bool b => some b
  | _ => none

/-- A whole number that fits 64 bits with a sign. -/
def int64? : Json → Option Int
  | .number (.whole i) => JsonNumber.int64? i
  | _ => none

/-- Any number, rounded to the binary format. -/
def binary64? : Json → Option Binary64
  | .number n => some n.toBinary64
  | _ => none

def array? : Json → Option (List Json)
  | .array items => some items
  | _ => none

def isNull : Json → Bool
  | .null => true
  | _ => false

theorem sizeOf_item_lt {item : Json} {items : List Json} (h : item ∈ items) :
    sizeOf item < sizeOf (Json.array items) := by
  have := List.sizeOf_lt_of_mem h
  simp only [Json.array.sizeOf_spec]
  omega

theorem sizeOf_get?_lt {name : String} {value data : Json} (h : data.get? name = some value) :
    sizeOf value < sizeOf data := by
  cases data with
  | object members =>
      simp only [get?] at h
      have : sizeOf value < sizeOf members := by
        induction members with
        | nil => simp at h
        | cons m rest ih =>
            obtain ⟨other, v⟩ := m
            rw [List.lookup_cons] at h
            split at h
            · simp only [Option.some.injEq] at h
              subst h
              simp only [List.cons.sizeOf_spec, Prod.mk.sizeOf_spec]
              omega
            · have := ih h
              simp only [List.cons.sizeOf_spec]
              omega
      simp only [Json.object.sizeOf_spec]
      omega
  | _ => simp [get?] at h

end Json

end GraphClient
