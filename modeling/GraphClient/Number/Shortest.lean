import GraphClient.Number.Binary64

/-! The shortest decimal that reads back as a given number. The reals that round to `m · 2 ^ q` form an
interval, which holds its ends when `m` is even. For one digit, two digits and so on up to seventeen,
the number's two neighbours on that decimal grid are tried; the first grid with a neighbour inside the
interval wins, and of two such neighbours the nearer. `Layout` says how the digits are then written. -/

namespace GraphClient

/-- A positive decimal `digits · 10 ^ exponent`. -/
structure ScaledDecimal where
  digits : Nat
  exponent : Int
  deriving DecidableEq, Repr

/-- Which neighbour is taken when both are equally near. -/
inductive Tie
  | toEven
  | up
  deriving DecidableEq, Repr

namespace Binary64

/-- The reals that round to a positive finite number, scaled by a common denominator: the number, the
two ends, and whether the ends belong. -/
structure Rounding where
  value : Nat
  low : Nat
  high : Nat
  denominator : Nat
  closed : Bool

/-- The gap below a power of two is half the gap above it. -/
def rounding (x : Binary64) : Rounding :=
  let m := x.significand
  let lowGap := if x.fractionField = 0 ∧ 1 < x.exponentField then 1 else 2
  let quarter := x.scale - 2
  let up := if quarter < 0 then 1 else Nat.pow 2 quarter.toNat
  let down := if quarter < 0 then Nat.pow 2 (-quarter).toNat else 1
  ⟨4 * m * up, (4 * m - lowGap) * up, (4 * m + 2) * up, down, m % 2 = 0⟩

/-- Whether `c · 10 ^ exponent` lies in the interval. -/
def Rounding.contains (r : Rounding) (c : Nat) (exponent : Int) : Bool :=
  let (num, den) :=
    if exponent < 0 then (c * r.denominator, Nat.pow 10 (-exponent).toNat)
    else (c * Nat.pow 10 exponent.toNat * r.denominator, 1)
  if r.closed then decide (r.low * den ≤ num ∧ num ≤ r.high * den)
  else decide (r.low * den < num ∧ num < r.high * den)

/-- The nearest multiple of `10 ^ exponent` in the interval, if one of the value's two neighbours among
the multiples lies in it. -/
def Rounding.onGrid (r : Rounding) (tie : Tie) (exponent : Int) : Option Nat :=
  let (num, den) :=
    if exponent < 0 then (r.value * Nat.pow 10 (-exponent).toNat, r.denominator)
    else (r.value, r.denominator * Nat.pow 10 exponent.toNat)
  let below := num / den
  let twice := 2 * (num % den)
  match r.contains below exponent, r.contains (below + 1) exponent with
  | false, false => none
  | true, false => some below
  | false, true => some (below + 1)
  | true, true =>
      if twice < den then some below
      else if den < twice then some (below + 1)
      else match tie with
        | .up => some (below + 1)
        | .toEven => some (if below % 2 = 0 then below else below + 1)

/-- Moves zeros at the end of the digits into the exponent, at most `n` of them. -/
def dropZeros : Nat → ScaledDecimal → ScaledDecimal
  | 0, d => d
  | n + 1, d =>
      if d.digits ≠ 0 ∧ d.digits % 10 = 0 then dropZeros n ⟨d.digits / 10, d.exponent + 1⟩ else d

/-- The greatest `k` with `10 ^ k ≤ num / den`, both positive: the difference of the digit counts, or
one less. -/
def floorLog10 (num den : Nat) : Int :=
  let k : Int := ((Nat.toDigits 10 num).length : Int) - (Nat.toDigits 10 den).length
  let reaches := if k < 0 then den ≤ num * Nat.pow 10 (-k).toNat else den * Nat.pow 10 k.toNat ≤ num
  if reaches then k else k - 1

/-- The shortest decimal that rounds to a positive finite number. Seventeen digits always suffice, and
for every count of digits the first grid that answers is taken. -/
def shortest (x : Binary64) (tie : Tie) : ScaledDecimal :=
  let r := x.rounding
  let leading := floorLog10 r.value r.denominator
  let found := (List.range 17).findSome? fun (n : Nat) =>
    let exponent := leading - n
    (r.onGrid tie exponent).map fun c => dropZeros 17 ⟨c, exponent⟩
  found.getD ⟨0, 0⟩

/-- How a number is written. Between the two bounds of the scientific exponent it is written out in
full, otherwise with one digit before the point and an exponent. -/
structure Layout where
  tie : Tie
  /-- The least and the greatest scientific exponent written in full, if there are bounds. -/
  plain : Option (Int × Int)
  /-- Whether a whole number is written with `.0`. -/
  keepPoint : Bool

/-- JSON text: full notation from `0.00001` to `1000000000000000.0`, else `1e-7` or `1e+16`. -/
def Layout.json : Layout := ⟨.toEven, some (-5, 15), true⟩

/-- Text for people: never an exponent, no point in a whole number. -/
def Layout.display : Layout := ⟨.up, none, false⟩

def zeros (n : Nat) : List Char := List.replicate n '0'

/-- The digits in full, with the point where the exponent puts it. -/
def writePlain (digits : List Char) (exponent : Int) (keepPoint : Bool) : List Char :=
  if 0 ≤ exponent then
    digits ++ zeros exponent.toNat ++ (if keepPoint then ['.', '0'] else [])
  else
    let places := (-exponent).toNat
    if places < digits.length then
      digits.take (digits.length - places) ++ '.' :: digits.drop (digits.length - places)
    else '0' :: '.' :: (zeros (places - digits.length) ++ digits)

/-- One digit, the point and the rest if there is one, and the exponent with its sign. -/
def writeScientific (digits : List Char) (exponent : Int) : List Char :=
  let mantissa := match digits with
    | d :: e :: rest => d :: '.' :: e :: rest
    | ds => ds
  mantissa ++ 'e' :: (if exponent < 0 then '-' else '+') :: Nat.toDigits 10 exponent.natAbs

/-- The text of a number in a layout; an infinity and a NaN are words. -/
def write (layout : Layout) (x : Binary64) : List Char :=
  let sign := if x.negative then ['-'] else []
  if x.isNaN then "NaN".toList
  else if !x.isFinite then sign ++ "inf".toList
  else if x.isZero then sign ++ (if layout.keepPoint then "0.0" else "0").toList
  else
    let d := x.shortest layout.tie
    let digits := Nat.toDigits 10 d.digits
    let scientific := d.exponent + digits.length - 1
    match layout.plain with
    | none => sign ++ writePlain digits d.exponent layout.keepPoint
    | some (least, greatest) =>
        if least ≤ scientific ∧ scientific ≤ greatest then
          sign ++ writePlain digits d.exponent layout.keepPoint
        else sign ++ writeScientific digits scientific

end Binary64

end GraphClient
