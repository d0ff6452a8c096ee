import GraphClient.Json.Basic
import GraphClient.Text.Digits

/-! The text of a JSON value: no blanks, and of the characters of a string only quotes, backslashes
and control characters are escaped. -/

namespace GraphClient.Json

/-- A character within quotes. -/
def escapeChar (c : Char) : List Char :=
  if c = '"' then ['\\', '"']
  else if c = '\\' then ['\\', '\\']
  else if c = '\n' then ['\\', 'n']
  else if c = '\r' then ['\\', 'r']
  else if c = '\t' then ['\\', 't']
  else if c.toNat = 8 then ['\\', 'b']
  else if c.toNat = 12 then ['\\', 'f']
  else if c.toNat < 32 then ['\\', 'u', '0', '0', Text.hexDigit (c.toNat / 16), Text.hexDigit c.toNat]
  else [c]

/-- A string in quotes. -/
def quote (s : String) : String :=
  String.ofList ('"' :: s.toList.flatMap escapeChar ++ ['"'])

mutual

/-- The text of a value. A number that is no finite one has no text of its own and is written as
`null`. -/
def text : Json → String
  | .null => "null"
  | .bool b => if b then "true" else "false"
  | .number (.real x) => if x.isFinite then (JsonNumber.real x).text else "null"
  | .number (.whole i) => (JsonNumber.whole i).text
  | .string s => quote s
  | .array items => "[" ++ ",".intercalate (itemTexts items) ++ "]"
  | .object members => "\x7b" ++ ",".intercalate (memberTexts members) ++ "\x7d"

def itemTexts : List Json → List String
  | [] => []
  | item :: rest => text item :: itemTexts rest

def memberTexts : List (String × Json) → List String
  | [] => []
  | (name, value) :: rest => (quote name ++ ":" ++ text value) :: memberTexts rest

end

end GraphClient.Json
