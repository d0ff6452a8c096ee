/-! Decimal numbers as text, so that no digit is lost. -/

namespace GraphClient

namespace Decimal

def allDigits (cs : List Char) : Bool := cs.all Char.isDigit

/-- A text without the sign in front of it, if there is one. -/
def dropSign : List Char → List Char
  | '-' :: rest | '+' :: rest => rest
  | cs => cs

def isExponentMark (c : Char) : Bool := c == 'e' || c == 'E'

/-- Digits with at most one point and at least one digit. -/
def isMantissa (cs : List Char) : Bool :=
  let whole := cs.takeWhile (· != '.')
  let fraction := (cs.dropWhile (· != '.')).drop 1
  !(whole.isEmpty && fraction.isEmpty) && allDigits whole && allDigits fraction

/-- Digits behind a sign or none. -/
def isExponent (cs : List Char) : Bool :=
  let digits := dropSign cs
  !digits.isEmpty && allDigits digits

/-- Whether a text writes a decimal number: a sign or none, digits with a point or none, and an
exponent behind its mark or none. -/
def isNumeral (cs : List Char) : Bool :=
  let body := dropSign cs
  isMantissa (body.takeWhile (!isExponentMark ·)) &&
    match body.dropWhile (!isExponentMark ·) with
    | [] => true
    | _ :: exponent => isExponent exponent

end Decimal

/-- The text of a decimal number. -/
structure Decimal where
  text : String
  numeral : Decimal.isNumeral text.toList = true
  deriving DecidableEq, Repr

namespace Decimal

def ofText? (text : String) : Option Decimal :=
  if h : isNumeral text.toList = true then some ⟨text, h⟩ else none

def zero : Decimal := ⟨"0", by decide⟩

theorem ofText?_eq_some_iff {text : String} {d : Decimal} : ofText? text = some d ↔ d.text = text := by
  obtain ⟨t, ht⟩ := d
  unfold ofText?
  split
  · simp [eq_comm]
  · rename_i h
    simp only [reduceCtorEq, false_iff]
    rintro rfl
    exact h ht

end Decimal

end GraphClient
