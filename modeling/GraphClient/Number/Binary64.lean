/-! Numbers in the 64-bit binary format, as words. A word has a sign bit, eleven exponent bits and
fifty-two fraction bits; a finite one stands for `± significand · 2 ^ scale`. All arithmetic here is on
natural numbers, and `ofRatio` is the one place where a number is rounded: to the nearest word, a tie
to the even significand. -/

namespace GraphClient

/-- A number in the 64-bit binary format. Two are equal when their words are, so a NaN equals itself
and the two zeros differ. -/
structure Binary64 where
  bits : UInt64
  deriving DecidableEq, Repr, Inhabited

namespace Binary64

def negative (x : Binary64) : Bool := decide (Nat.pow 2 63 ≤ x.bits.toNat)

def exponentField (x : Binary64) : Nat := x.bits.toNat / Nat.pow 2 52 % Nat.pow 2 11

def fractionField (x : Binary64) : Nat := x.bits.toNat % Nat.pow 2 52

/-- The exponent field of infinities and NaNs. -/
def topExponent : Nat := 2047

def isFinite (x : Binary64) : Bool := decide (x.exponentField ≠ topExponent)

def isNaN (x : Binary64) : Bool := decide (x.exponentField = topExponent ∧ x.fractionField ≠ 0)

def isZero (x : Binary64) : Bool := decide (x.exponentField = 0 ∧ x.fractionField = 0)

/-- The integer that a finite number is a power of two times of. -/
def significand (x : Binary64) : Nat :=
  if x.exponentField = 0 then x.fractionField else Nat.pow 2 52 + x.fractionField

/-- The exponent of that power of two. -/
def scale (x : Binary64) : Int := (max x.exponentField 1 : Nat) - 1075

/-- The magnitude of a finite number as a quotient. -/
def magnitude (x : Binary64) : Nat × Nat :=
  if x.scale < 0 then (x.significand, Nat.pow 2 (-x.scale).toNat)
  else (x.significand * Nat.pow 2 x.scale.toNat, 1)

/-- The word with this sign and these lower 63 bits. -/
def assemble (negative : Bool) (magnitude : Nat) : Binary64 :=
  ⟨UInt64.ofNat ((if negative then Nat.pow 2 63 else 0) + magnitude)⟩

def zero (negative : Bool) : Binary64 := assemble negative 0

def infinity (negative : Bool) : Binary64 := assemble negative (topExponent * Nat.pow 2 52)

/-- The integer nearest to `num / den`, the even one on a tie. -/
def divideToEven (num den : Nat) : Nat :=
  let quotient := num / den
  let twice := 2 * (num % den)
  if den < twice ∨ (twice = den ∧ quotient % 2 = 1) then quotient + 1 else quotient

/-- The greatest `k` with `2 ^ k ≤ num / den`, both positive. -/
def floorLog2 (num den : Nat) : Int :=
  let k : Int := (Nat.log2 num : Int) - Nat.log2 den
  let reaches := if k < 0 then den ≤ num * Nat.pow 2 (-k).toNat else den * Nat.pow 2 k.toNat ≤ num
  if reaches then k else k - 1

/-- The number nearest to `num / den`, a tie going to the even significand; an infinity if the
quotient lies half a step or more beyond the largest finite number. -/
def ofRatio (negative : Bool) (num den : Nat) : Binary64 :=
  if num = 0 then zero negative
  else
    let scale := max (floorLog2 num den - 52) (-1074)
    let significand :=
      if scale < 0 then divideToEven (num * Nat.pow 2 (-scale).toNat) den
      else divideToEven num (den * Nat.pow 2 scale.toNat)
    let magnitude := (scale + 1074).toNat * Nat.pow 2 52 + significand
    assemble negative (min magnitude (topExponent * Nat.pow 2 52))

def ofInt (i : Int) : Binary64 := ofRatio (decide (i < 0)) i.natAbs 1

/-- The number nearest to `± digits · 10 ^ exponent`. The magnitude is bounded before the power is
taken: no finite number has more than 309 digits before the point, and a number with 400 zeros behind
it rounds to zero. -/
def ofDecimal (negative : Bool) (digits : Nat) (exponent : Int) : Binary64 :=
  let places : Int := (Nat.toDigits 10 digits).length
  if digits = 0 then zero negative
  else if 310 < places + exponent then infinity negative
  else if places + exponent < -400 then zero negative
  else if exponent < 0 then ofRatio negative digits (Nat.pow 10 (-exponent).toNat)
  else ofRatio negative (digits * Nat.pow 10 exponent.toNat) 1

/-- The rounded product of two finite numbers. -/
def multiply (x y : Binary64) : Binary64 :=
  ofRatio (x.negative != y.negative) (x.magnitude.1 * y.magnitude.1) (x.magnitude.2 * y.magnitude.2)

/-- The rounded quotient of two finite numbers, the second not zero. -/
def divide (x y : Binary64) : Binary64 :=
  ofRatio (x.negative != y.negative) (x.magnitude.1 * y.magnitude.2) (x.magnitude.2 * y.magnitude.1)

/-- The number with the sign bit set as asked. -/
def withSign (negative : Bool) (x : Binary64) : Binary64 :=
  assemble negative (x.bits.toNat % Nat.pow 2 63)

end Binary64

end GraphClient
