import GraphClient.Json.Writer
import GraphClient.Scalar.Value

/-! Converters between wire values and leaf values. There are ten standard ones, each under the name
that a schema uses for its scalar; any converter may be given a further name. -/

namespace GraphClient

/-- Why a wire value cannot be converted. -/
inductive Mismatch
  /-- The value is of another JSON type. -/
  | expected (what : String)
  | notDecimal
  /-- A text that is no date, time or identifier. -/
  | malformed
  deriving DecidableEq, Repr

/-- The reason in words, if there are words for it. -/
def Mismatch.text? : Mismatch → Option String
  | expected what => some ("expected " ++ what)
  | notDecimal => some "not a decimal number"
  | malformed => none

/-- What can go wrong with scalars. -/
inductive ScalarError
  | unknown (name : String)
  | conversion (scalar : String) (value : Json) (reason : Mismatch)
  deriving Repr

/-- The message for a scalar that has no converter. -/
def ScalarError.unknownMessage (name : String) : String :=
  "no converter registered for custom scalar `" ++ name ++ "`"

/-- The message, if the reason can be told. -/
def ScalarError.message? : ScalarError → Option String
  | unknown name => some (unknownMessage name)
  | conversion scalar value reason =>
      reason.text?.map fun why => "cannot convert " ++ value.text ++ " to `" ++ scalar ++ "`: " ++ why

/-- The code under which an error is documented. -/
def ScalarError.code : ScalarError → String
  | unknown _ => "livegql::scalar::unknown"
  | conversion _ _ _ => "livegql::scalar::conversion"

/-- What to do about an error. -/
def ScalarError.help? : ScalarError → Option String
  | unknown _ => some "register a converter or map it to a standard scalar in `livegql.json`"
  | conversion _ _ _ => none

/-- The scalars that are known without being told. -/
inductive StandardScalar
  | string
  | int
  | float
  | boolean
  | id
  | dateTime
  | date
  | time
  | decimal
  | uuid
  deriving DecidableEq, Repr

namespace StandardScalar

/-- The scalars of every schema. -/
def builtin : List StandardScalar := [string, int, float, boolean, id]

/-- The scalars that a schema may declare. -/
def custom : List StandardScalar := [dateTime, date, time, decimal, uuid]

/-- The name in a schema. -/
def name : StandardScalar → String
  | string => "String"
  | int => "Int"
  | float => "Float"
  | boolean => "Boolean"
  | id => "ID"
  | dateTime => "DateTime"
  | date => "Date"
  | time => "Time"
  | decimal => "Decimal"
  | uuid => "UUID"

def ofName? (name : String) : Option StandardScalar :=
  (builtin ++ custom).find? fun s => s.name == name

/-- A text, read by a reader that may refuse it. -/
def readText {α : Type} (what : String) (read? : List Char → Option α) (value : Json) :
    Except Mismatch α :=
  match value with
  | .string s => match read? s.toList with
    | some a => .ok a
    | none => .error .malformed
  | _ => .error (.expected what)

/-- The text of a decimal: a string or a number as it is written. -/
def readDecimal (value : Json) : Except Mismatch Decimal :=
  let ofText (text : String) : Except Mismatch Decimal := match Decimal.ofText? text with
    | some d => .ok d
    | none => .error .notDecimal
  match value with
  | .string s => ofText s
  | .number n => ofText n.text
  | _ => .error (.expected "a string or number")

/-- The leaf value of a wire value. -/
def read (scalar : StandardScalar) (value : Json) : Except Mismatch ScalarValue :=
  match scalar with
  | string => match value with
    | .string s => .ok (.string s)
    | _ => .error (.expected "a string")
  | int => match value.int64? with
    | some i => .ok (.int i)
    | none => .error (.expected "an integer")
  | float => match value.binary64? with
    | some x => .ok (.float x)
    | none => .error (.expected "a number")
  | boolean => match value with
    | .bool b => .ok (.boolean b)
    | _ => .error (.expected "a boolean")
  | id => match value with
    | .string s => .ok (.string s)
    | .number (.whole i) => .ok (.string (toString i))
    | _ => .error (.expected "a string or integer")
  | dateTime => .dateTime <$> readText "an RFC 3339 string" DateTime.read? value
  | date => .date <$> readText "a YYYY-MM-DD string" Date.read? value
  | time => .time <$> readText "an HH:MM:SS string" TimeOfDay.read? value
  | decimal => .decimal <$> readDecimal value
  | uuid => .uuid <$> readText "a UUID string" Uuid.read? value

/-- The value that stands in for a missing or refused one. -/
def default : StandardScalar → ScalarValue
  | string | id => .string ""
  | int => .int 0
  | float => .float (Binary64.zero false)
  | boolean => .boolean false
  | dateTime => .dateTime .epoch
  | date => .date .epoch
  | time => .time .midnight
  | decimal => .decimal .zero
  | uuid => .uuid .zero

/-- The type in which generated code holds the values. -/
def typeText : StandardScalar → String
  | string | id => "String"
  | int => "i64"
  | float => "f64"
  | boolean => "bool"
  | dateTime => "rt::chrono::DateTime<rt::chrono::FixedOffset>"
  | date => "rt::chrono::NaiveDate"
  | time => "rt::chrono::NaiveTime"
  | decimal => "rt::Decimal"
  | uuid => "rt::uuid::Uuid"

end StandardScalar

/-- A standard converter, or another name for a converter. -/
inductive Converter
  | standard (scalar : StandardScalar)
  | aliased (name : String) (target : Converter)
  deriving DecidableEq, Repr

namespace Converter

def name : Converter → String
  | standard s => s.name
  | aliased n _ => n

/-- The standard converter at the end of the names. -/
def base : Converter → StandardScalar
  | standard s => s
  | aliased _ target => target.base

/-- The leaf value of a wire value; an error tells the name that was asked. -/
def read : Converter → Json → Except ScalarError ScalarValue
  | standard s, value => (s.read value).mapError (.conversion s.name value)
  | aliased n target, value => (target.read value).mapError fun
    | .conversion _ v reason => .conversion n v reason
    | e => e

def write : Converter → ScalarValue → Json
  | standard _, value => value.toJson
  | aliased _ target, value => target.write value

def default : Converter → ScalarValue
  | standard s => s.default
  | aliased _ target => target.default

def typeText : Converter → String
  | standard s => s.typeText
  | aliased _ target => target.typeText

end Converter

end GraphClient
