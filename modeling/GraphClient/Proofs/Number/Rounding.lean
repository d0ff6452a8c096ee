import GraphClient.Json.Basic
import Mathlib

/-! Rounding of whole numbers. One whose magnitude is far enough from the largest finite number is
rounded to a finite one (`Binary64.isFinite_ofInt`), and so every JSON number has a finite value
(`JsonNumber.isFinite_toBinary64`). -/

namespace GraphClient

namespace Binary64

/-- The magnitude decides whether a number is finite, not the sign. -/
theorem isFinite_assemble {magnitude : Nat} (negative : Bool)
    (hmagnitude : magnitude < topExponent * 2 ^ 52) :
    (assemble negative magnitude).isFinite = true := by
  have hfield : (assemble negative magnitude).exponentField = magnitude / 4503599627370496 := by
    have hsmall : magnitude < 2047 * 4503599627370496 := hmagnitude
    rw [exponentField, assemble, UInt64.toNat_ofNat']
    cases negative
    · rw [if_neg (by decide)]
      change (0 + magnitude) % 18446744073709551616 / 4503599627370496 % 2048 = _
      omega
    · rw [if_pos rfl]
      change (9223372036854775808 + magnitude) % 18446744073709551616 / 4503599627370496 % 2048 = _
      omega
  rw [isFinite, hfield, decide_eq_true_eq]
  exact Nat.ne_of_lt (Nat.div_lt_of_lt_mul (by rwa [Nat.mul_comm]))

theorem divideToEven_le (num den : Nat) : divideToEven num den ≤ num / den + 1 := by
  unfold divideToEven
  dsimp only
  split
  · exact Nat.le_refl _
  · exact Nat.le_succ _

theorem floorLog2_one {n : Nat} (hn : n ≠ 0) : floorLog2 n 1 = n.log2 := by
  have hlog : Nat.log2 1 = 0 := rfl
  have hreaches : 1 * Nat.pow 2 n.log2 ≤ n := by
    rw [Nat.one_mul]
    exact Nat.log2_self_le hn
  unfold floorLog2
  simp only [hlog, Int.natCast_zero, Int.sub_zero,
    if_neg (Int.not_lt.2 (Int.natCast_nonneg _)), Int.toNat_natCast, if_pos hreaches]

/-- Shifted down to fifty-three binary digits and rounded, a number has at most one more. -/
theorem divideToEven_shifted_le {n shift : Nat} (hn : n < 2 ^ (53 + shift)) :
    divideToEven n (1 * Nat.pow 2 shift) ≤ 2 ^ 53 := by
  have hquotient : n / (1 * Nat.pow 2 shift) < 2 ^ 53 := by
    apply Nat.div_lt_of_lt_mul
    rw [Nat.one_mul, Nat.mul_comm]
    exact Nat.lt_of_lt_of_eq hn (Nat.pow_add 2 53 shift)
  exact Nat.le_trans (divideToEven_le _ _) hquotient

/-- Shifted up to fifty-three binary digits, a number is not rounded. -/
theorem divideToEven_widened_le {n shift : Nat} (hn : n * 2 ^ shift < 2 ^ 53) :
    divideToEven (n * Nat.pow 2 shift) 1 ≤ 2 ^ 53 := by
  refine Nat.le_trans (divideToEven_le _ _) ?_
  rw [Nat.div_one]
  exact hn

/-- A whole number is rounded to a finite number unless it has as many binary digits as the largest ones. -/
theorem isFinite_ofInt {i : Int} {digits : Nat} (hi : i.natAbs < 2 ^ digits) (hdigits : digits ≤ 1023) :
    (ofInt i).isFinite = true := by
  rw [ofInt, ofRatio]
  split
  · exact isFinite_assemble _ (by decide)
  · rename_i hzero
    have hlog : i.natAbs.log2 < digits := (Nat.log2_lt hzero).2 hi
    have hbelow : i.natAbs < 2 ^ (i.natAbs.log2 + 1) := Nat.lt_log2_self
    have hscale : max (floorLog2 i.natAbs 1 - 52) (-1074) = (i.natAbs.log2 : Int) - 52 := by
      rw [floorLog2_one hzero]
      omega
    have hsignificand : (if (i.natAbs.log2 : Int) - 52 < 0 then
          divideToEven (i.natAbs * Nat.pow 2 (-((i.natAbs.log2 : Int) - 52)).toNat) 1
        else divideToEven i.natAbs (1 * Nat.pow 2 ((i.natAbs.log2 : Int) - 52).toNat)) ≤ 2 ^ 53 := by
      split
      · apply divideToEven_widened_le
        refine Nat.lt_of_lt_of_eq (Nat.mul_lt_mul_of_pos_right hbelow (Nat.two_pow_pos _)) ?_
        rw [← Nat.pow_add]
        congr 1
        omega
      · apply divideToEven_shifted_le
        refine Nat.lt_of_lt_of_eq hbelow ?_
        congr 1
        omega
    apply isFinite_assemble
    rw [hscale]
    refine Nat.lt_of_le_of_lt (Nat.min_le_left _ _) ?_
    have hexponent : ((i.natAbs.log2 : Int) - 52 + 1074).toNat ≤ 2044 := by omega
    calc ((i.natAbs.log2 : Int) - 52 + 1074).toNat * Nat.pow 2 52 + _
        ≤ 2044 * 2 ^ 52 + 2 ^ 53 := Nat.add_le_add (Nat.mul_le_mul_right _ hexponent) hsignificand
      _ < topExponent * 2 ^ 52 := by decide

end Binary64

namespace JsonNumber

/-- The numbers that a JSON value can hold: whole ones of 64 bits and finite ones. -/
def Proper : JsonNumber → Prop
  | .whole i => inRange i = true
  | .real x => x.isFinite = true

theorem isFinite_toBinary64 {n : JsonNumber} (hn : n.Proper) : n.toBinary64.isFinite = true := by
  cases n with
  | real x => exact hn
  | whole i =>
      have hrange : least ≤ i ∧ i < -2 * least := of_decide_eq_true hn
      rw [least] at hrange
      have hdigits : i.natAbs < 2 ^ 64 := by omega
      exact Binary64.isFinite_ofInt hdigits (by decide)

end JsonNumber

end GraphClient
