import GraphClient.Text.Characters
import GraphClient.Text.Digits
import Mathlib

/-! Numbers that are padded to a width. Padding loses nothing of a number that fits the width, and the
reader of a number at the front of a text takes the padding off again, as long as no further digit
stands behind it (`takeNumber_padded`). -/

namespace GraphClient.Text

variable {width n : Nat} {rest : List Char}

theorem ofDigits_append (cs : List Char) (c : Char) :
    ofDigits (cs ++ [c]) = ofDigits cs * 10 + digitValue c := by
  rw [ofDigits, List.foldl_append]
  rfl

theorem digitValue_digitChar {d : Nat} (hd : d < 10) : digitValue (Nat.digitChar d) = d :=
  Nat.toNat_digitChar_sub_48_of_lt_ten hd

theorem isDigit_of_mem_padded {c : Char} (hc : c ∈ padded width n) : c.isDigit = true := by
  induction width generalizing n with
  | zero => cases hc
  | succ width ih =>
      rw [padded, List.mem_append, List.mem_singleton] at hc
      rcases hc with hc | rfl
      · exact ih hc
      · rw [Nat.isDigit_digitChar, decide_eq_true (Nat.mod_lt n (by decide))]

theorem ofDigits_padded (hn : n < 10 ^ width) : ofDigits (padded width n) = n := by
  induction width generalizing n with
  | zero => exact (Nat.lt_one_iff.1 hn).symm
  | succ width ih =>
      have hquotient : n / 10 < 10 ^ width := Nat.div_lt_of_lt_mul (by rwa [Nat.mul_comm, ← Nat.pow_succ])
      rw [padded, ofDigits_append, ih hquotient,
        digitValue_digitChar (Nat.mod_lt n (by decide)), Nat.mul_comm]
      exact Nat.div_add_mod n 10

/-- That a text goes on with something else than a digit. -/
def EndsNumber (rest : List Char) : Prop := ∀ c ∈ rest.head?, c.isDigit = false

theorem takeWhile_digits {digits : List Char} (hdigits : ∀ c ∈ digits, c.isDigit = true)
    (hrest : EndsNumber rest) :
    (digits ++ rest).takeWhile Char.isDigit = digits := by
  rw [List.takeWhile_append_of_pos hdigits]
  cases rest with
  | nil => simp
  | cons c rest => rw [List.takeWhile_cons, hrest c rfl, if_neg (by decide), List.append_nil]

theorem dropWhile_digits {digits : List Char} (hdigits : ∀ c ∈ digits, c.isDigit = true)
    (hrest : EndsNumber rest) :
    (digits ++ rest).dropWhile Char.isDigit = rest := by
  rw [List.dropWhile_append_of_pos hdigits]
  cases rest with
  | nil => rfl
  | cons c rest => rw [List.dropWhile_cons, hrest c rfl, if_neg (by decide)]

theorem EndsNumber.take (hrest : EndsNumber rest) (count : Nat) : EndsNumber (rest.take count) := by
  cases rest with
  | nil => rwa [List.take_nil]
  | cons c rest =>
      cases count with
      | zero => exact nofun
      | succ count => exact hrest

/-- A padded number is read back where it cannot be taken for a longer one. -/
theorem takeNumber_padded {least most : Nat} (hleast : least ≤ width) (hmost : width ≤ most)
    (hn : n < 10 ^ width)
    (hends : width = most ∨ EndsNumber rest) :
    takeNumber least most (padded width n ++ rest) = some (n, rest) := by
  have hrest : EndsNumber (rest.take (most - width)) := by
    rcases hends with heq | hrest
    · rw [heq, Nat.sub_self, List.take_zero]
      exact nofun
    · exact hrest.take _
  have htake : ((padded width n ++ rest).take most).takeWhile Char.isDigit = padded width n := by
    rw [List.take_append, length_padded, List.take_of_length_le (by rwa [length_padded])]
    exact takeWhile_digits (fun _ => isDigit_of_mem_padded) hrest
  rw [takeNumber, htake, length_padded, if_neg (Nat.not_lt.2 hleast), ofDigits_padded hn,
    List.drop_left' (length_padded width n)]

theorem exists_padded_cons (hwidth : 0 < width) : ∃ c cs, padded width n = c :: cs ∧ c.isDigit = true := by
  cases heq : padded width n with
  | nil =>
      have hlength := length_padded width n
      rw [heq, List.length_nil] at hlength
      omega
  | cons c cs =>
      have hc : c ∈ padded width n := heq ▸ List.mem_cons_self
      exact ⟨c, cs, rfl, isDigit_of_mem_padded hc⟩

theorem isBlank_of_isDigit {c : Char} (hc : c.isDigit = true) : isBlank c = false := by
  simp only [Char.isDigit, Bool.and_eq_true, decide_eq_true_eq] at hc
  have hlow : 48 ≤ c.toNat := hc.1
  have hhigh : c.toNat ≤ 57 := hc.2
  rw [isBlank, ← Bool.not_eq_true, inRanges_iff]
  rintro ⟨r, hr, hmem⟩
  have hapart : ∀ r ∈ blankRanges, r.2 < 48 ∨ 57 < r.1 := by decide
  rcases hapart r hr with h | h <;> omega

/-- There is no white space to be passed over in front of a padded number. -/
theorem dropBlank_padded (hwidth : 0 < width) :
    (padded width n ++ rest).dropWhile isBlank = padded width n ++ rest := by
  obtain ⟨c, cs, heq, hc⟩ := exists_padded_cons (n := n) hwidth
  rw [heq, List.cons_append, List.dropWhile_cons, isBlank_of_isDigit hc, if_neg (by decide)]

theorem hexValue?_hexDigit (n : Nat) : hexValue? (hexDigit n) = some (n % 16) := by
  have hall : ∀ d < 16, hexValue? ((Nat.toDigits 16 d).headD '0') = some d := by decide
  exact hall (n % 16) (Nat.mod_lt n (by decide))

@[simp] theorem length_hexPadded (width n : Nat) : (hexPadded width n).length = width := by
  induction width generalizing n with
  | zero => rfl
  | succ width ih => rw [hexPadded, List.length_append, ih, List.length_singleton]

theorem exists_hexDigit_of_mem_hexPadded {c : Char} (hc : c ∈ hexPadded width n) : ∃ d, c = hexDigit d := by
  induction width generalizing n with
  | zero => cases hc
  | succ width ih =>
      rw [hexPadded, List.mem_append, List.mem_singleton] at hc
      rcases hc with hc | rfl
      · exact ih hc
      · exact ⟨n, rfl⟩

theorem ofHexDigits?_hexPadded (hn : n < 16 ^ width) : ofHexDigits? (hexPadded width n) = some n := by
  induction width generalizing n with
  | zero => rw [Nat.lt_one_iff.1 hn]; rfl
  | succ width ih =>
      have hquotient : n / 16 < 16 ^ width := Nat.div_lt_of_lt_mul (by rwa [Nat.mul_comm, ← Nat.pow_succ])
      have hread := ih hquotient
      rw [ofHexDigits?] at hread
      rw [hexPadded, ofHexDigits?, List.foldlM_append, hread]
      simp only [Option.bind_eq_bind, Option.bind_some, List.foldlM_cons, List.foldlM_nil, hexValue?_hexDigit,
        Option.map_some, Option.pure_def]
      rw [Nat.mul_comm, Nat.div_add_mod]

end GraphClient.Text
