import GraphClient.Proofs.Number.Rounding
import GraphClient.Proofs.Scalar.Calendar
import GraphClient.Proofs.Scalar.Registry
import GraphClient.Proofs.Scalar.Uuid

/-! Leaf values on the wire. A converter may read many wire values as one leaf value, and writes that
in one form, which it reads as the same value again (`Converter.read_write`): what is written for a
wire value is its normal form. -/

namespace GraphClient

namespace StandardScalar

/-- What a text reader gives is read again from the text it is written as, if the reader reads that one. -/
theorem readText_chars {α : Type} {what : String} {read? : List Char → Option α} {chars : α → List Char}
    (hread : ∀ a, read? (chars a) = some a) (a : α) :
    readText what read? (.string (String.ofList (chars a))) = .ok a := by
  rw [readText, String.toList_ofList, hread]

/-- The text of a decimal is read as it stands, whether it was a string or a number. -/
theorem readDecimal_text (d : Decimal) : readDecimal (.string d.text) = .ok d := by
  have hread : Decimal.ofText? d.text = some d := Decimal.ofText?_eq_some_iff.2 rfl
  unfold readDecimal
  dsimp only
  rw [hread]

/-- What a standard converter reads, it reads again from what is written for it. -/
theorem read_toJson (s : StandardScalar) {w : Json} (hw : ∀ n, w = .number n → n.Proper) {v : ScalarValue}
    (hread : s.read w = .ok v) : s.read v.toJson = .ok v := by
  cases s with
  | string =>
      cases w <;> cases hread
      rfl
  | int =>
      rw [read] at hread
      split at hread <;> cases hread
      rename_i i hint
      obtain ⟨n, rfl⟩ : ∃ n, w = .number (.whole n) := by
        cases w with
        | number n =>
            cases n with
            | whole n => exact ⟨n, rfl⟩
            | real x => cases hint
        | _ => cases hint
      have hrange : n = i := by
        simp only [Json.int64?, JsonNumber.int64?] at hint
        split at hint
        · exact Option.some.inj hint
        · cases hint
      rw [ScalarValue.toJson, read, Json.whole, ← hrange, hint, hrange]
  | float =>
      rw [read] at hread
      split at hread <;> cases hread
      rename_i x hnumber
      cases w with
      | number n =>
          have hfinite : x.isFinite = true := by
            rw [← Option.some.inj hnumber]
            exact JsonNumber.isFinite_toBinary64 (hw n rfl)
          rw [ScalarValue.toJson, if_pos hfinite]
          rfl
      | _ => cases hnumber
  | boolean =>
      cases w <;> cases hread
      rfl
  | id =>
      cases w with
      | string t => cases hread; rfl
      | number n =>
          cases n <;> cases hread
          rfl
      | _ => cases hread
  | dateTime =>
      obtain ⟨t, -, rfl⟩ := Except.map_eq_ok.1 hread
      rw [ScalarValue.toJson, read, readText_chars DateTime.read?_chars]
      rfl
  | date =>
      obtain ⟨d, -, rfl⟩ := Except.map_eq_ok.1 hread
      rw [ScalarValue.toJson, read, readText_chars Date.read?_chars]
      rfl
  | time =>
      obtain ⟨t, -, rfl⟩ := Except.map_eq_ok.1 hread
      rw [ScalarValue.toJson, read, readText_chars TimeOfDay.read?_chars]
      rfl
  | decimal =>
      obtain ⟨d, -, rfl⟩ := Except.map_eq_ok.1 hread
      rw [ScalarValue.toJson, read, readDecimal_text]
      rfl
  | uuid =>
      obtain ⟨u, -, rfl⟩ := Except.map_eq_ok.1 hread
      rw [ScalarValue.toJson, read, readText_chars Uuid.read?_chars]
      rfl

end StandardScalar

namespace Converter

/-- The form in which a wire value is written once it was read. -/
def normalize (c : Converter) (w : Json) : Except ScalarError Json := (c.read w).map c.write

/-- What a converter reads, it reads again from what it writes for it, and what it writes is a normal form. -/
theorem read_write (c : Converter) {w : Json} (hw : ∀ n, w = .number n → n.Proper) {v : ScalarValue}
    (hread : c.read w = .ok v) : c.read (c.write v) = .ok v ∧ c.normalize (c.write v) = .ok (c.write v) := by
  have hagain : c.read (c.write v) = .ok v := by
    rw [write_eq]
    exact read_eq_ok.2 (c.base.read_toJson hw (read_eq_ok.1 hread))
  exact ⟨hagain, Except.map_eq_ok.2 ⟨v, hagain, rfl⟩⟩

/-- A scalar that is like `DateTime`. -/
def sampleTimestamp : Converter := .aliased "Timestamp" (.standard .dateTime)

/-- A leap second on a leap day, by a clock behind universal time. -/
def sampleMoment : DateTime :=
  ⟨⟨2024, 2, 29, by decide, by decide, by decide⟩,
    ⟨23, 59, 60, 500000000, by decide, by decide, by decide, by decide⟩, -330, by decide, by decide⟩

/-- A small letter between date and time, a fraction of one digit and a mathematical minus are
gone when the value is written. -/
theorem read_write_sampleMoment :
    sampleTimestamp.read (.string "2024-02-29t23:59:60.5\u221205:30") = .ok (.dateTime sampleMoment) ∧
      sampleTimestamp.write (.dateTime sampleMoment) = .string "2024-02-29T23:59:60.500-05:30" ∧
      sampleTimestamp.read (.string "2024-02-29T23:59:60.500-05:30") = .ok (.dateTime sampleMoment) := by
  have hread : sampleTimestamp.read (.string "2024-02-29t23:59:60.5\u221205:30") =
      .ok (.dateTime sampleMoment) := by
    rfl
  have hwrite : sampleTimestamp.write (.dateTime sampleMoment) = .string "2024-02-29T23:59:60.500-05:30" := by
    rfl
  have hstring : ∀ n, Json.string "2024-02-29t23:59:60.5\u221205:30" = .number n → n.Proper := by
    intro n hn
    cases hn
  exact ⟨hread, hwrite, hwrite ▸ (read_write sampleTimestamp hstring hread).1⟩

end Converter

end GraphClient
