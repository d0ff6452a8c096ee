import GraphClient.Json.Basic
import GraphClient.Text.Digits

/-! Reading JSON text. The text is first cut into tokens; the tokens are then put together by a stack
of unfinished containers, one token at a time. `read?` gives the value as written, with members in
their order and repeated ones kept; `parse?` gives the canonical value. A text is refused if containers
nest deeper than `depthLimit`, if a number is too large, or if an escaped surrogate stands alone. -/

namespace GraphClient.Json

open Text (digitValue ofDigits)

/-- A lexical unit of JSON text; a scalar carries its value. -/
inductive Token
  | openArray
  | closeArray
  | openObject
  | closeObject
  | colon
  | comma
  | scalar (value : Json)

/-- Four hexadecimal digits. -/
def codeUnit? (a b c d : Char) : Option Nat := Text.ofHexDigits? [a, b, c, d]

/-- The character of an escape with one letter. -/
def shortEscape? : Char → Option Char
  | '"' => some '"'
  | '\\' => some '\\'
  | '/' => some '/'
  | 'b' => some (Char.ofNat 8)
  | 'f' => some (Char.ofNat 12)
  | 'n' => some '\n'
  | 'r' => some '\r'
  | 't' => some '\t'
  | _ => none

def isHighSurrogate (unit : Nat) : Bool := decide (0xD800 ≤ unit ∧ unit < 0xDC00)

def isLowSurrogate (unit : Nat) : Bool := decide (0xDC00 ≤ unit ∧ unit < 0xE000)

/-- The characters up to the closing quote, decoded, and what follows it. A high surrogate must be
followed by a low one. -/
def readString? : List Char → Option (List Char × List Char)
  | [] => none
  | '"' :: rest => some ([], rest)
  | '\\' :: 'u' :: a :: b :: c :: d :: rest =>
      match codeUnit? a b c d with
      | none => none
      | some unit =>
          if isHighSurrogate unit then
            match rest with
            | '\\' :: 'u' :: e :: f :: g :: h :: rest' =>
                match codeUnit? e f g h with
                | some low =>
                    if isLowSurrogate low then
                      let point := 0x10000 + (unit - 0xD800) * 0x400 + (low - 0xDC00)
                      (readString? rest').map fun r => (Char.ofNat point :: r.1, r.2)
                    else none
                | none => none
            | _ => none
          else if isLowSurrogate unit then none
          else (readString? rest).map fun r => (Char.ofNat unit :: r.1, r.2)
  | '\\' :: c :: rest =>
      match shortEscape? c with
      | some e => (readString? rest).map fun r => (e :: r.1, r.2)
      | none => none
  | c :: rest =>
      if c.toNat < 32 ∨ c = '\\' then none
      else (readString? rest).map fun r => (c :: r.1, r.2)

/-! A number is gathered into a significand below `2 ^ 64` and a power of ten. Digits that no longer fit
are dropped: before the point each of them raises the exponent by one. The significand is then rounded
and multiplied or divided by the rounded power of ten, so the result may be off by a step from the
number nearest to the text. -/

/-- The significand so far, the digits' weight, and what follows. -/
structure Gathered where
  significand : Nat
  exponent : Int
  rest : List Char

/-- Whether another digit still fits. -/
def fits (significand : Nat) (c : Char) : Bool := decide (significand * 10 + digitValue c < Nat.pow 2 64)

/-- Digits before the point. -/
def gatherWhole (significand : Nat) (exponent : Int) : List Char → Gathered
  | [] => ⟨significand, exponent, []⟩
  | c :: rest =>
      if c.isDigit then
        if exponent = 0 ∧ fits significand c then gatherWhole (significand * 10 + digitValue c) 0 rest
        else gatherWhole significand (exponent + 1) rest
      else ⟨significand, exponent, c :: rest⟩

/-- Digits after the point; once one does not fit, it and all that follow are dropped. -/
def gatherFraction (significand : Nat) (exponent : Int) : List Char → Gathered
  | [] => ⟨significand, exponent, []⟩
  | c :: rest =>
      if c.isDigit then
        if fits significand c then gatherFraction (significand * 10 + digitValue c) (exponent - 1) rest
        else ⟨significand, exponent, rest.dropWhile Char.isDigit⟩
      else ⟨significand, exponent, c :: rest⟩

/-- The rounded power of ten. -/
def powerOfTen (n : Nat) : Binary64 := Binary64.ofDecimal false 1 n

/-- Scales a rounded significand by a power of ten, in steps of at most 308 places. None if the result
is too large. -/
def scaleByTen : Nat → Binary64 → Int → Option Binary64
  | 0, x, _ => some x
  | steps + 1, x, exponent =>
      if exponent.natAbs ≤ 308 then
        if 0 ≤ exponent then
          let y := x.multiply (powerOfTen exponent.natAbs)
          if y.isFinite then some y else none
        else some (x.divide (powerOfTen exponent.natAbs))
      else if x.isZero then some x
      else if 0 ≤ exponent then none
      else scaleByTen steps (x.divide (powerOfTen 308)) (exponent + 308)

/-- The number of a significand and an exponent. Four steps leave nothing of any significand. -/
def realOfParts (negative : Bool) (significand : Nat) (exponent : Int) : Option Json :=
  (scaleByTen 4 (Binary64.ofInt significand) exponent).map fun x =>
    .number (.real (x.withSign negative))

/-- The exponent after its mark. One beyond 32 bits stands for infinity or zero. -/
def readExponent? (negative : Bool) (significand : Nat) (exponent : Int) (cs : List Char) :
    Option (Json × List Char) :=
  let (minus, digits) := match cs with
    | '+' :: rest => (false, rest)
    | '-' :: rest => (true, rest)
    | rest => (false, rest)
  let written := digits.takeWhile Char.isDigit
  let rest := digits.dropWhile Char.isDigit
  if written.isEmpty then none
  else
    let size : Int := ofDigits written
    if 2147483648 ≤ size then
      if significand ≠ 0 ∧ !minus then none
      else some (.number (.real (Binary64.zero negative)), rest)
    else
      (realOfParts negative significand (if minus then exponent - size else exponent + size)).map (·, rest)

/-- What may follow the point. -/
def readFraction? (negative : Bool) (significand : Nat) (exponent : Int) (cs : List Char) :
    Option (Json × List Char) :=
  if (cs.head?.any Char.isDigit) then
    let g := gatherFraction significand exponent cs
    match g.rest with
    | 'e' :: rest | 'E' :: rest => readExponent? negative g.significand g.exponent rest
    | rest => (realOfParts negative g.significand g.exponent).map (·, rest)
  else none

/-- A number without its sign: no zero before another digit, and digits on both sides of a point. A
whole number in range is whole, only minus zero is not. -/
def readUnsigned? (negative : Bool) (cs : List Char) : Option (Json × List Char) :=
  let whole : Option Gathered := match cs with
    | '0' :: rest => if rest.head?.any Char.isDigit then none else some ⟨0, 0, rest⟩
    | c :: rest => if c.isDigit then some (gatherWhole (digitValue c) 0 rest) else none
    | [] => none
  whole.bind fun g =>
    match g.rest with
    | '.' :: rest => readFraction? negative g.significand g.exponent rest
    | 'e' :: rest | 'E' :: rest => readExponent? negative g.significand g.exponent rest
    | rest =>
        let value : Int := if negative then -(g.significand : Int) else g.significand
        if g.exponent = 0 ∧ JsonNumber.inRange value ∧ !(negative && g.significand == 0) then
          some (.whole value, rest)
        else (realOfParts negative g.significand g.exponent).map (·, rest)

def readNumber? : List Char → Option (Json × List Char)
  | '-' :: rest => readUnsigned? true rest
  | cs => readUnsigned? false cs

/-- The next token, from its first character and what follows it. -/
def nextToken? : List Char → Option (Token × List Char)
  | '[' :: rest => some (.openArray, rest)
  | ']' :: rest => some (.closeArray, rest)
  | '\x7b' :: rest => some (.openObject, rest)
  | '\x7d' :: rest => some (.closeObject, rest)
  | ':' :: rest => some (.colon, rest)
  | ',' :: rest => some (.comma, rest)
  | '"' :: rest => (readString? rest).map fun r => (.scalar (.string (String.ofList r.1)), r.2)
  | 't' :: 'r' :: 'u' :: 'e' :: rest => some (.scalar (.bool true), rest)
  | 'f' :: 'a' :: 'l' :: 's' :: 'e' :: rest => some (.scalar (.bool false), rest)
  | 'n' :: 'u' :: 'l' :: 'l' :: rest => some (.scalar .null, rest)
  | cs => (readNumber? cs).map fun r => (.scalar r.1, r.2)

def isBlank (c : Char) : Bool := c == ' ' || c == '\n' || c == '\t' || c == '\r'

/-- All tokens of a text. Every token has a character, so as many steps as there are characters are
enough. -/
def tokensWithin : Nat → List Char → Option (List Token)
  | 0, cs => if (cs.dropWhile isBlank).isEmpty then some [] else none
  | steps + 1, cs =>
      match cs.dropWhile isBlank with
      | [] => some []
      | c :: rest => (nextToken? (c :: rest)).bind fun t => (tokensWithin steps t.2).map (t.1 :: ·)

/-- A container that is not closed yet, its contents newest first. -/
inductive Frame
  | array (items : List Json)
  | object (members : List (String × Json))
  | member (name : String) (members : List (String × Json))

/-- What may come next. -/
inductive Awaiting
  | value
  | firstItem
  | firstName
  | name
  | colon
  | separator
  | finish (value : Json)

/-- A text read so far: the unfinished containers, innermost first, and what may come next. -/
structure Reading where
  frames : List Frame
  awaiting : Awaiting

/-- Containers may nest this deep. -/
def depthLimit : Nat := 127

namespace Reading

def start : Reading := ⟨[], .value⟩

/-- A finished value goes into the innermost container. -/
def put (value : Json) : List Frame → Option Reading
  | [] => some ⟨[], .finish value⟩
  | .array items :: frames => some ⟨.array (value :: items) :: frames, .separator⟩
  | .member name members :: frames => some ⟨.object ((name, value) :: members) :: frames, .separator⟩
  | .object _ :: _ => none

def openFrame (frame : Frame) (awaiting : Awaiting) (frames : List Frame) : Option Reading :=
  if frames.length < depthLimit then some ⟨frame :: frames, awaiting⟩ else none

/-- A token where a value is due. -/
def pushValue (frames : List Frame) : Token → Option Reading
  | .scalar value => put value frames
  | .openArray => openFrame (.array []) .firstItem frames
  | .openObject => openFrame (.object []) .firstName frames
  | _ => none

/-- A token where a member's name is due. -/
def pushName (frames : List Frame) : Token → Option Reading
  | .scalar (.string name) =>
      match frames with
      | .object members :: outer => some ⟨.member name members :: outer, .colon⟩
      | _ => none
  | _ => none

def closeArray : List Frame → Option Reading
  | .array items :: frames => put (.array items.reverse) frames
  | _ => none

def closeObject : List Frame → Option Reading
  | .object members :: frames => put (.object members.reverse) frames
  | _ => none

/-- The reading after one more token. -/
def push (r : Reading) (token : Token) : Option Reading :=
  match r.awaiting, token with
  | .value, t => pushValue r.frames t
  | .firstItem, .closeArray => closeArray r.frames
  | .firstItem, t => pushValue r.frames t
  | .firstName, .closeObject => closeObject r.frames
  | .firstName, t => pushName r.frames t
  | .name, t => pushName r.frames t
  | .colon, .colon => some ⟨r.frames, .value⟩
  | .separator, .comma =>
      match r.frames with
      | .array _ :: _ => some ⟨r.frames, .value⟩
      | .object _ :: _ => some ⟨r.frames, .name⟩
      | _ => none
  | .separator, .closeArray => closeArray r.frames
  | .separator, .closeObject => closeObject r.frames
  | _, _ => none

def result? (r : Reading) : Option Json :=
  match r.awaiting with
  | .finish value => some value
  | _ => none

end Reading

/-- The value that a text writes, its members as written. -/
def read? (source : String) : Option Json := do
  let tokens ← tokensWithin source.toList.length source.toList
  let reading ← tokens.foldlM Reading.push Reading.start
  reading.result?

/-- The canonical value that a text writes. -/
def parse? (source : String) : Option Json := (read? source).map canonical

end GraphClient.Json
