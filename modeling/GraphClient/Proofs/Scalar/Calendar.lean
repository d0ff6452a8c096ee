import GraphClient.Proofs.Text.Digits
import GraphClient.Scalar.Calendar

/-! Dates, times and instants in writing. The readers take much that is never written: single digits, white
space, fractions of any length, a mathematical minus. Whatever they give is written in a form that they
read as the same value again (`Date.read?_chars`, `TimeOfDay.read?_chars`, `DateTime.read?_chars`). -/

namespace GraphClient

open Text (padded takeNumber takeChar EndsNumber takeNumber_padded dropBlank_padded)

theorem Text.takeChar_cons (c : Char) (rest : List Char) : takeChar c (c :: rest) = some rest := if_pos rfl

theorem Text.endsNumber_cons {c : Char} (hc : c.isDigit = false) (rest : List Char) :
    EndsNumber (c :: rest) := by
  intro other hother
  rw [List.head?_cons, Option.mem_some_iff] at hother
  rwa [← hother]

theorem Text.endsNumber_nil : EndsNumber [] := nofun

theorem daysInMonth_le (year : Int) (month : Nat) : daysInMonth year month ≤ 31 := by
  unfold daysInMonth
  split
  · split <;> decide
  · split <;> decide

namespace Date

theorem of?_self (d : Date) : of? d.year d.month d.day = some d :=
  dif_pos ⟨d.year_mem, d.month_mem, d.day_mem⟩

theorem month_lt (d : Date) : d.month < 10 ^ 2 := Nat.lt_of_le_of_lt d.month_mem.2 (by decide)

theorem day_lt (d : Date) : d.day < 10 ^ 2 :=
  Nat.lt_of_le_of_lt (Nat.le_trans d.day_mem.2 (daysInMonth_le _ _)) (by decide)

/-- How many digits a year has, at least four. -/
def yearWidth (year : Int) : Nat := max 4 (Nat.toDigits 10 year.natAbs).length

theorem natAbs_lt_yearWidth (year : Int) : year.natAbs < 10 ^ yearWidth year :=
  (Nat.length_toDigits_le_iff (by decide) (Nat.lt_of_lt_of_le (by decide) (Nat.le_max_left _ _))).1
    (Nat.le_max_right _ _)

theorem yearText_of_mem {year : Int} (hyear : 0 ≤ year ∧ year ≤ 9999) :
    yearText year = padded 4 year.natAbs := by
  have hlength : (Nat.toDigits 10 year.natAbs).length ≤ 4 :=
    (Nat.length_toDigits_le_iff (by decide) (by decide)).2 (by omega)
  rw [yearText, if_neg (Int.not_lt.2 hyear.1), if_pos hyear.2, Nat.max_eq_left hlength]

theorem takeYear_digit {c : Char} (hc : c.isDigit = true) (rest : List Char) :
    takeYear (c :: rest) = (takeNumber 1 4 (c :: rest)).map fun r => ((r.1 : Int), r.2) := by
  rw [takeYear]
  · rintro rest' heq
    cases heq
    cases hc
  · rintro rest' heq
    cases heq
    cases hc

/-- A year is read back in front of a hyphen. -/
theorem takeYear_yearText (year : Int) (rest : List Char) :
    takeYear (yearText year ++ '-' :: rest) = some (year, '-' :: rest) := by
  have hsigned : takeNumber 1 (padded (yearWidth year) year.natAbs ++ '-' :: rest).length
      (padded (yearWidth year) year.natAbs ++ '-' :: rest) = some (year.natAbs, '-' :: rest) := by
    have hwidth : 4 ≤ yearWidth year := Nat.le_max_left _ _
    refine takeNumber_padded (by omega) ?_ (natAbs_lt_yearWidth year) (.inr (Text.endsNumber_cons rfl rest))
    rw [List.length_append, Text.length_padded]
    exact Nat.le_add_right _ _
  by_cases hnegative : year < 0
  · rw [yearText, if_pos hnegative, List.cons_append, takeYear]
    rw [yearWidth] at hsigned
    rw [hsigned, Option.map_some, Option.some.injEq, Prod.mk.injEq]
    exact ⟨by omega, rfl⟩
  · by_cases hlong : year ≤ 9999
    · rw [yearText_of_mem ⟨Int.not_lt.1 hnegative, hlong⟩]
      have hcons : ∃ c cs, padded 4 year.natAbs = c :: cs ∧ c.isDigit = true :=
        Text.exists_padded_cons (by decide)
      obtain ⟨c, cs, heq, hc⟩ := hcons
      have hread : takeNumber 1 4 (padded 4 year.natAbs ++ '-' :: rest) = some (year.natAbs, '-' :: rest) :=
        takeNumber_padded (by decide) (by decide) (by omega) (.inl rfl)
      rw [heq, List.cons_append] at hread ⊢
      rw [takeYear_digit hc, hread, Option.map_some, Option.some.injEq, Prod.mk.injEq]
      exact ⟨by omega, rfl⟩
    · rw [yearText, if_neg hnegative, if_neg hlong, List.cons_append, takeYear]
      rw [yearWidth] at hsigned
      rw [hsigned, Option.map_some, Option.some.injEq, Prod.mk.injEq]
      exact ⟨by omega, rfl⟩

/-- There is no white space in front of a year. -/
theorem dropBlank_yearText (year : Int) (rest : List Char) :
    (yearText year ++ rest).dropWhile Text.isBlank = yearText year ++ rest := by
  have hwidth : 0 < yearWidth year := Nat.lt_of_lt_of_le (by decide) (Nat.le_max_left 4 _)
  rw [yearText]
  split
  · rw [List.cons_append, List.dropWhile_cons, if_neg (by decide)]
  · split
    · exact dropBlank_padded hwidth
    · rw [List.cons_append, List.dropWhile_cons, if_neg (by decide)]

/-- A number of two digits is read back, whatever follows it. -/
theorem takeShort_padded {n : Nat} (hn : n < 10 ^ 2) (rest : List Char) :
    takeShort (padded 2 n ++ rest) = some (n, rest) := by
  rw [takeShort, dropBlank_padded (by decide)]
  exact takeNumber_padded (by decide) (by decide) hn (.inl rfl)

/-- A day is read as what was written. -/
theorem read?_chars (d : Date) : read? d.chars = some d := by
  have hday := takeShort_padded d.day_lt []
  rw [List.append_nil] at hday
  simp only [read?, chars, List.append_assoc, List.cons_append, dropBlank_yearText, takeYear_yearText,
    Text.takeChar_cons, takeShort_padded d.month_lt, hday, Option.bind_eq_bind,
    Option.bind_some, List.isEmpty_nil, if_true, of?_self]

end Date

namespace TimeOfDay

theorem of?_self (t : TimeOfDay) : of? t.hour t.minute t.second t.nanosecond = some t :=
  dif_pos ⟨⟨t.hour_lt, t.minute_lt⟩, t.second_le, t.nanosecond_lt⟩

theorem hour_lt_hundred (t : TimeOfDay) : t.hour < 10 ^ 2 := Nat.lt_trans t.hour_lt (by decide)

theorem minute_lt_hundred (t : TimeOfDay) : t.minute < 10 ^ 2 := Nat.lt_trans t.minute_lt (by decide)

theorem second_lt_hundred (t : TimeOfDay) : t.second < 10 ^ 2 := Nat.lt_of_le_of_lt t.second_le (by decide)

/-- A fraction is read by the weight of its digits. -/
theorem takeFraction_padded {width n : Nat} {rest : List Char} (hpos : 0 < width) (hwidth : width ≤ 9)
    (hn : n < 10 ^ width) (hrest : EndsNumber rest) :
    takeFraction ('.' :: padded width n ++ rest) = some (n * 10 ^ (9 - width), rest) := by
  have hdigits : ∀ c ∈ padded width n, c.isDigit = true := fun _ => Text.isDigit_of_mem_padded
  have hnonempty : (padded width n).isEmpty = false := by
    rw [List.isEmpty_eq_false_iff, ← List.length_pos_iff, Text.length_padded]
    exact hpos
  have htake : (padded width n).take 9 = padded width n :=
    List.take_of_length_le (by rwa [Text.length_padded])
  rw [List.cons_append, takeFraction, Text.takeWhile_digits hdigits hrest,
    Text.dropWhile_digits hdigits hrest, htake, if_neg (by rw [hnonempty]; decide)]
  dsimp only
  rw [Text.ofDigits_padded hn, Text.length_padded]
  rfl

theorem takeFraction_of_ne {rest : List Char} (hrest : ∀ c ∈ rest.head?, c ≠ '.') :
    takeFraction rest = some (0, rest) := by
  rw [takeFraction]
  rintro rest' rfl
  exact hrest '.' rfl rfl

/-- A fraction is read back where neither a point nor a digit follows. -/
theorem takeFraction_fractionText {n : Nat} {rest : List Char} (hn : n < 1000000000)
    (hpoint : ∀ c ∈ rest.head?, c ≠ '.') (hrest : EndsNumber rest) :
    takeFraction (fractionText n ++ rest) = some (n, rest) := by
  unfold fractionText
  split
  · rename_i hzero
    rw [List.nil_append, takeFraction_of_ne hpoint, hzero]
  · split
    · rename_i hmilli
      rw [takeFraction_padded (by decide) (by decide) (by omega) hrest, Option.some.injEq, Prod.mk.injEq]
      exact ⟨Nat.div_mul_cancel (Nat.dvd_of_mod_eq_zero hmilli), rfl⟩
    · split
      · rename_i hmicro
        rw [takeFraction_padded (by decide) (by decide) (by omega) hrest, Option.some.injEq, Prod.mk.injEq]
        exact ⟨Nat.div_mul_cancel (Nat.dvd_of_mod_eq_zero hmicro), rfl⟩
      · rw [takeFraction_padded (by decide) (by decide) hn hrest, Nat.sub_self, Nat.pow_zero, Nat.mul_one]

/-- A time of day is read as what was written. -/
theorem read?_chars (t : TimeOfDay) : read? t.chars = some t := by
  have hfraction : takeFraction (fractionText t.nanosecond ++ []) = some (t.nanosecond, []) :=
    takeFraction_fractionText t.nanosecond_lt nofun Text.endsNumber_nil
  rw [List.append_nil] at hfraction
  simp only [read?, chars, List.append_assoc, List.cons_append, Text.takeChar_cons,
    Date.takeShort_padded t.hour_lt_hundred, Date.takeShort_padded t.minute_lt_hundred,
    Date.takeShort_padded t.second_lt_hundred, hfraction, Option.bind_eq_bind,
    Option.bind_some, List.isEmpty_nil, if_true, of?_self]

end TimeOfDay

namespace DateTime

/-- A reader goes on with what it has read. -/
theorem reads_on {α β : Type} {x : Option α} {next : α → Option β} {a : α}
    {result : Option β} (hx : x = some a) (hnext : next a = result) : x >>= next = result := by
  rw [hx]
  exact hnext

theorem of?_self (t : DateTime) : of? t.date t.time t.offset = some t := dif_pos ⟨t.year_mem, t.offset_mem⟩

/-- A number of two digits is read back, whatever follows it. -/
theorem takeNumber_two {n : Nat} (hn : n < 10 ^ 2) (rest : List Char) :
    takeNumber 2 2 (padded 2 n ++ rest) = some (n, rest) :=
  takeNumber_padded (by decide) (by decide) hn (.inl rfl)

theorem takeOffset_padded {negative : Bool} {size : Nat} (hsize : size < 1440) :
    takeOffset negative (padded 2 (size / 60) ++ ':' :: padded 2 (size % 60)) =
      some (if negative then -(size : Int) else size, []) := by
  have hminutes := takeNumber_two (n := size % 60) (by omega) []
  rw [List.append_nil] at hminutes
  have hmem : size / 60 < 24 ∧ size % 60 < 60 := ⟨by omega, by omega⟩
  simp only [takeOffset, takeNumber_two (n := size / 60) (by omega), Text.takeChar_cons, hminutes,
    Option.bind_eq_bind, Option.bind_some, if_pos hmem, Nat.div_add_mod', Option.pure_def]

/-- An offset is read as what was written; one of zero has the sign of those ahead. -/
theorem readOffset?_offsetText {offset : Int} (hoffset : -1440 < offset ∧ offset < 1440) :
    readOffset? (offsetText offset) = some (offset, []) := by
  have hsize : offset.natAbs < 1440 := by omega
  by_cases hnegative : offset < 0
  · rw [offsetText, if_pos hnegative, List.cons_append, readOffset?, takeOffset_padded hsize, if_pos rfl,
      Option.some.injEq, Prod.mk.injEq]
    exact ⟨by omega, rfl⟩
  · rw [offsetText, if_neg hnegative, List.cons_append, readOffset?,
      takeOffset_padded hsize, if_neg (by decide), Option.some.injEq, Prod.mk.injEq]
    exact ⟨by omega, rfl⟩

/-- No fraction of a second goes on in an offset. -/
theorem head_offsetText {offset : Int} {c : Char} (hc : c ∈ (offsetText offset).head?) :
    c = '-' ∨ c = '+' := by
  rw [offsetText, List.cons_append, List.head?_cons, Option.mem_some_iff] at hc
  rw [← hc]
  split
  · exact .inl rfl
  · exact .inr rfl

/-- An instant is read as what was written, with the clock that showed it. -/
theorem read?_chars (t : DateTime) : read? t.chars = some t := by
  have hyear : ∀ rest, takeNumber 4 4 (padded 4 t.date.year.natAbs ++ rest) =
      some (t.date.year.natAbs, rest) := by
    intro rest
    have hmem := t.year_mem
    exact takeNumber_padded (by decide) (by decide) (by omega) (.inl rfl)
  have hfraction : TimeOfDay.takeFraction (TimeOfDay.fractionText t.time.nanosecond ++ offsetText t.offset) =
      some (t.time.nanosecond, offsetText t.offset) := by
    refine TimeOfDay.takeFraction_fractionText t.time.nanosecond_lt (fun c hc => ?_) (fun c hc => ?_)
    · rcases head_offsetText hc with rfl | rfl <;> decide
    · rcases head_offsetText hc with rfl | rfl <;> rfl
  have hdate : Date.of? (t.date.year.natAbs : Nat) t.date.month t.date.day = some t.date := by
    rw [Int.natAbs_of_nonneg t.year_mem.1, Date.of?_self]
  simp only [chars, Date.chars, Date.yearText_of_mem t.year_mem, TimeOfDay.chars,
    List.append_assoc, List.cons_append]
  rw [read?]
  refine reads_on (hyear _) ?_
  refine reads_on (Text.takeChar_cons _ _) (reads_on (takeNumber_two t.date.month_lt _) ?_)
  refine reads_on (Text.takeChar_cons _ _) (reads_on (takeNumber_two t.date.day_lt _) ?_)
  refine reads_on rfl (reads_on (takeNumber_two t.time.hour_lt_hundred _) ?_)
  refine reads_on (Text.takeChar_cons _ _) (reads_on (takeNumber_two t.time.minute_lt_hundred _) ?_)
  refine reads_on (Text.takeChar_cons _ _) (reads_on (takeNumber_two t.time.second_lt_hundred _) ?_)
  refine reads_on hfraction (reads_on (readOffset?_offsetText t.offset_mem) ?_)
  dsimp only
  rw [List.isEmpty_nil, if_pos rfl]
  exact reads_on hdate (reads_on (TimeOfDay.of?_self t.time) (of?_self t))

end DateTime

end GraphClient
