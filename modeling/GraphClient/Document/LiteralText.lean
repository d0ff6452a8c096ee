import GraphClient.Number.Binary64
import GraphClient.Json.Basic
import GraphClient.Text.Digits

/-! What the text of a literal stands for: the escapes of a string, the quotes of a block string, and
the value of a number. -/

namespace GraphClient.LiteralText

/-- The value of hexadecimal digits, of which there is at least one. -/
def hexNumber? (digits : List Char) : Option Nat :=
  if digits.isEmpty then none
  else Text.ofHexDigits? digits

/-- The character that the text behind `\u` names; a plus sign before the digits changes nothing, and
a text that is no number, or a surrogate, names none. -/
def codePoint? (text : List Char) : List Char :=
  let digits := match text with
    | '+' :: rest => rest
    | rest => rest
  match hexNumber? digits with
  | some n => if h : n.isValidChar then [Char.ofNatAux n h] else []
  | none => []

/-- The character behind a backslash. Letters without a meaning stand for themselves. -/
def escaped : Char → Char
  | 'n' => '\n'
  | 't' => '\t'
  | 'r' => '\r'
  | 'b' => Char.ofNat 8
  | 'f' => Char.ofNat 12
  | c => c

/-- The characters that the body of a quoted string stands for. A `\u` takes the four characters
behind it, or as many as there are. -/
def unescape : List Char → List Char
  | [] => []
  | '\\' :: 'u' :: a :: b :: c :: d :: rest => codePoint? [a, b, c, d] ++ unescape rest
  | '\\' :: 'u' :: short => codePoint? short
  | '\\' :: c :: rest => escaped c :: unescape rest
  | ['\\'] => []
  | c :: rest => c :: unescape rest

/-- The characters that the body of a block string stands for: three quotes behind a backslash are
three quotes. -/
def unescapeBlock : List Char → List Char
  | [] => []
  | '\\' :: '"' :: '"' :: '"' :: rest => '"' :: '"' :: '"' :: unescapeBlock rest
  | c :: rest => c :: unescapeBlock rest

/-- A text without its first and last `n` characters. -/
def strip (n : Nat) (text : List Char) : List Char := (text.drop n).take (text.length - 2 * n)

def quoted (token : String) : String := String.ofList (unescape (strip 1 token.toList))

def block (token : String) : String := String.ofList (unescapeBlock (strip 3 token.toList))

/-- A sign in front of digits: whether it is a minus, and the digits. -/
def splitSign : List Char → Bool × List Char
  | '-' :: rest => (true, rest)
  | '+' :: rest => (false, rest)
  | rest => (false, rest)

/-- A whole number of 64 bits. -/
def int? (token : String) : Option Int :=
  let (minus, digits) := splitSign token.toList
  JsonNumber.int64? (if minus then -(Text.ofDigits digits : Int) else Text.ofDigits digits)

/-- The number nearest to the text of a float token. An exponent without digits makes it zero. -/
def float (token : String) : Binary64 :=
  let (minus, rest) := splitSign token.toList
  let whole := rest.takeWhile Char.isDigit
  let (fraction, rest) := match rest.dropWhile Char.isDigit with
    | '.' :: rest => (rest.takeWhile Char.isDigit, rest.dropWhile Char.isDigit)
    | rest => ([], rest)
  let digits := Text.ofDigits (whole ++ fraction)
  match rest with
  | [] => Binary64.ofDecimal minus digits (-(fraction.length : Int))
  | _ :: exponent =>
      let (minusExponent, power) := splitSign exponent
      if power.isEmpty then Binary64.zero false
      else
        let size : Int := Text.ofDigits power
        Binary64.ofDecimal minus digits ((if minusExponent then -size else size) - fraction.length)

end GraphClient.LiteralText
