import GraphClient.Text.Digits

/-! Universally unique identifiers: 128 bits, written as 32 hexadecimal digits in five groups. -/

namespace GraphClient

structure Uuid where
  bits : BitVec 128
  deriving DecidableEq, Repr

namespace Uuid

def zero : Uuid := ⟨0⟩

/-- The lengths of the five groups. -/
def groups : List Nat := [8, 4, 4, 4, 12]

/-- Digits cut into groups with a hyphen between two of them. -/
def hyphenate : List Nat → List Char → List Char
  | [], _ => []
  | [n], digits => digits.take n
  | n :: rest, digits => digits.take n ++ '-' :: hyphenate rest (digits.drop n)

/-- The digits of hyphenated groups, if the hyphens stand where they have to. -/
def unhyphenate? : List Nat → List Char → Option (List Char)
  | [], [] => some []
  | [], _ => none
  | [n], cs => if cs.length = n then some cs else none
  | n :: rest, cs =>
      match cs.drop n with
      | '-' :: left => (unhyphenate? rest left).map (cs.take n ++ ·)
      | _ => none

/-- The hyphenated form in small letters. -/
def chars (u : Uuid) : List Char := hyphenate groups (Text.hexPadded 32 u.bits.toNat)

def ofDigits? (digits : List Char) : Option Uuid :=
  if digits.length = 32 then
    (Text.ofHexDigits? digits).map fun n => ⟨.ofNat 128 n⟩
  else none

def readHyphenated? (cs : List Char) : Option Uuid := (unhyphenate? groups cs).bind ofDigits?

/-- What follows the name space of identifiers, in letters of any case. -/
def stripNamespace? (cs : List Char) : Option (List Char) :=
  if (cs.take 9).map Char.toLower = "urn:uuid:".toList then some (cs.drop 9) else none

/-- Reads 32 digits, or the hyphenated form, which may stand in braces or behind its name space. -/
def read? (cs : List Char) : Option Uuid :=
  match cs with
  | '\x7b' :: rest =>
      if rest.getLast? = some '\x7d' then readHyphenated? rest.dropLast else none
  | cs =>
      match stripNamespace? cs with
      | some rest => readHyphenated? rest
      | none => if cs.length = 32 then ofDigits? cs else readHyphenated? cs

end Uuid

end GraphClient
