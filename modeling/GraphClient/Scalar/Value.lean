import GraphClient.Json.Basic
import GraphClient.Scalar.Calendar
import GraphClient.Scalar.Decimal
import GraphClient.Scalar.Uuid

/-! Leaf values after conversion from their wire form, and the types in which a program may read them.
Two floats are equal when their bits are, two instants when the same clock shows them. -/

namespace GraphClient

/-- A leaf value. -/
inductive ScalarValue
  | null
  | boolean (value : Bool)
  | int (value : Int)
  | float (value : Binary64)
  | string (value : String)
  /-- The name of a member of an enumeration. -/
  | enum (name : String)
  | dateTime (value : DateTime)
  | date (value : Date)
  | time (value : TimeOfDay)
  | decimal (value : Decimal)
  | uuid (value : Uuid)
  deriving DecidableEq, Repr

namespace ScalarValue

def isNull : ScalarValue → Bool
  | null => true
  | _ => false

/-- The text of a string, of an enumeration's member or of a decimal. -/
def text? : ScalarValue → Option String
  | string s | .enum s => some s
  | decimal d => some d.text
  | _ => none

def int? : ScalarValue → Option Int
  | int i => some i
  | _ => none

/-- A number; a whole one is rounded. -/
def float? : ScalarValue → Option Binary64
  | float x => some x
  | int i => some (Binary64.ofInt i)
  | _ => none

def bool? : ScalarValue → Option Bool
  | boolean b => some b
  | _ => none

/-- The wire form. A float that is no finite number has none and becomes null. -/
def toJson : ScalarValue → Json
  | null => .null
  | boolean b => .bool b
  | int i => .whole i
  | float x => if x.isFinite then .number (.real x) else .null
  | string s | .enum s => .string s
  | decimal d => .string d.text
  | dateTime t => .string (String.ofList t.chars)
  | date d => .string (String.ofList d.chars)
  | time t => .string (String.ofList t.chars)
  | uuid u => .string (String.ofList u.chars)

/-- The text for people. -/
def display : ScalarValue → String
  | null => "null"
  | boolean b => if b then "true" else "false"
  | int i => toString i
  | float x => String.ofList (x.write .display)
  | string s | .enum s => s
  | decimal d => d.text
  | dateTime t => String.ofList t.chars
  | date d => String.ofList d.chars
  | time t => String.ofList t.chars
  | uuid u => String.ofList u.chars

end ScalarValue

/-- The types in which a program reads and writes leaf values; `any` takes each value as it is. -/
inductive NativeType
  | boolean
  | int
  | float
  | text
  | dateTime
  | date
  | time
  | decimal
  | uuid
  | any
  deriving DecidableEq, Repr

namespace NativeType

/-- The value as one of this type, if it is one. Every value with a text of its own reads as text. -/
def read? : NativeType → ScalarValue → Option ScalarValue
  | boolean, .boolean b => some (.boolean b)
  | int, .int i => some (.int i)
  | float, .float x => some (.float x)
  | text, v => v.text?.map .string
  | dateTime, .dateTime t => some (.dateTime t)
  | date, .date d => some (.date d)
  | time, .time t => some (.time t)
  | decimal, .decimal d => some (.decimal d)
  | uuid, .uuid u => some (.uuid u)
  | any, v => if v.isNull then none else some v
  | _, _ => none

/-- What is read where no value of the type stands. -/
def fallback : NativeType → ScalarValue
  | boolean => .boolean false
  | int => .int 0
  | float => .float (Binary64.zero false)
  | text => .string ""
  | dateTime => .dateTime .epoch
  | date => .date .epoch
  | time => .time .midnight
  | decimal => .decimal .zero
  | uuid => .uuid .zero
  | any => .null

end NativeType

end GraphClient
