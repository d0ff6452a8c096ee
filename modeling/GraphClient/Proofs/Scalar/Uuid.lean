import GraphClient.Proofs.Text.Digits
import GraphClient.Scalar.Uuid

/-! Identifiers in writing. An identifier may be given with or without hyphens, in braces or behind
its name space, in letters of any case; it is written in one form, which is read as the same
identifier again (`Uuid.read?_chars`). -/

namespace GraphClient.Uuid

/-- Where the hyphens were put, they are found again. -/
theorem unhyphenate?_hyphenate {n : Nat} {rest : List Nat} {digits : List Char}
    (hlength : digits.length = (n :: rest).sum) :
    unhyphenate? (n :: rest) (hyphenate (n :: rest) digits) = some digits := by
  induction rest generalizing n digits with
  | nil =>
      rw [List.sum_singleton] at hlength
      rw [hyphenate, List.take_of_length_le (Nat.le_of_eq hlength), unhyphenate?, if_pos hlength]
  | cons next rest ih =>
      rw [List.sum_cons] at hlength
      have htake : (digits.take n).length = n := by
        rw [List.length_take, hlength]
        exact Nat.min_eq_left (Nat.le_add_right _ _)
      have hleft : unhyphenate? (next :: rest) (hyphenate (next :: rest) (digits.drop n)) =
          some (digits.drop n) :=
        ih (by rw [List.length_drop, hlength, Nat.add_sub_cancel_left])
      simp only [hyphenate, unhyphenate?, List.drop_left' htake, List.take_left' htake]
      rw [hleft, Option.map_some, List.take_append_drop]

theorem length_chars (u : Uuid) : u.chars.length = 36 := by
  simp only [chars, groups, hyphenate, List.length_append, List.length_cons,
    List.length_take, List.length_drop, Text.length_hexPadded]
  rfl

theorem ofDigits?_hexPadded (u : Uuid) : ofDigits? (Text.hexPadded 32 u.bits.toNat) = some u := by
  have hbits : u.bits.toNat < 16 ^ 32 := u.bits.isLt
  rw [ofDigits?, if_pos (Text.length_hexPadded _ _), Text.ofHexDigits?_hexPadded hbits,
    Option.map_some, BitVec.ofNat_toNat, BitVec.setWidth_eq]

theorem readHyphenated?_chars (u : Uuid) : readHyphenated? u.chars = some u := by
  have hlength : (Text.hexPadded 32 u.bits.toNat).length = groups.sum := Text.length_hexPadded _ _
  rw [readHyphenated?, chars, groups, unhyphenate?_hyphenate hlength, Option.bind_some, ofDigits?_hexPadded]

/-- The written form starts with a digit. -/
theorem exists_chars_cons (u : Uuid) : ∃ d rest, u.chars = Text.hexDigit d :: rest := by
  have hlength : (Text.hexPadded 32 u.bits.toNat).length = 32 := Text.length_hexPadded _ _
  cases heq : Text.hexPadded 32 u.bits.toNat with
  | nil =>
      rw [heq] at hlength
      cases hlength
  | cons c cs =>
      obtain ⟨d, rfl⟩ := Text.exists_hexDigit_of_mem_hexPadded (heq ▸ List.mem_cons_self : c ∈ _)
      rw [chars, heq]
      exact ⟨d, _, rfl⟩

/-- A digit starts neither braces nor the name space. -/
theorem hexDigit_apart (d : Nat) : Text.hexDigit d ≠ '\x7b' ∧ (Text.hexDigit d).toLower ≠ 'u' := by
  have hall : ∀ d < 16, (Nat.toDigits 16 d).headD '0' ≠ '\x7b' ∧
      ((Nat.toDigits 16 d).headD '0').toLower ≠ 'u' := by
    decide
  exact hall (d % 16) (Nat.mod_lt d (by decide))

/-- An identifier is read as what was written. -/
theorem read?_chars (u : Uuid) : read? u.chars = some u := by
  obtain ⟨d, rest, heq⟩ := exists_chars_cons u
  obtain ⟨hbrace, hletter⟩ := hexDigit_apart d
  have hnamespace : stripNamespace? u.chars = none := by
    rw [stripNamespace?, heq, if_neg]
    intro hsame
    rw [List.take_succ_cons, List.map_cons] at hsame
    exact hletter (List.cons.inj hsame).1
  rw [read?]
  · rw [hnamespace, length_chars, if_neg (by decide), readHyphenated?_chars]
  · intro rest' hsame
    rw [heq] at hsame
    exact hbrace (List.cons.inj hsame).1

end GraphClient.Uuid
