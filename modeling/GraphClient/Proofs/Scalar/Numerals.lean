import GraphClient.Proofs.Number.Rounding
import GraphClient.Proofs.Scalar.Registry

/-! Numerals. What a decimal may be written as is told by a grammar (`IsNumeral`), and a text is taken
for a decimal just if the grammar derives it (`isNumeral_iff`): the first mark of an exponent and the
first point cut a numeral where the grammar does, since neither a mantissa holds a mark nor the digits
before the point a point. Every finite number is written as a numeral, in whichever layout
(`isNumeral_write`), so every JSON number is a decimal too. -/

namespace GraphClient

/-- Any number of digits. -/
def IsDigits (cs : List Char) : Prop := ∀ c ∈ cs, c.isDigit = true

/-- A sign or none. -/
inductive IsSign : List Char → Prop
  | none : IsSign []
  | minus : IsSign ['-']
  | plus : IsSign ['+']

/-- One digit or more, with a point before, among or behind them or without one. -/
inductive IsMantissa : List Char → Prop
  | whole {digits} (hdigits : IsDigits digits) (hnonempty : digits ≠ []) : IsMantissa digits
  | pointed {whole fraction} (hwhole : IsDigits whole) (hfraction : IsDigits fraction)
      (hnonempty : whole ++ fraction ≠ []) : IsMantissa (whole ++ '.' :: fraction)

/-- A mark and behind it one digit or more with a sign or without one; or nothing. -/
inductive IsExponent : List Char → Prop
  | none : IsExponent []
  | marked {mark sign digits} (hmark : mark = 'e' ∨ mark = 'E') (hsign : IsSign sign)
      (hdigits : IsDigits digits) (hnonempty : digits ≠ []) : IsExponent (mark :: (sign ++ digits))

/-- A decimal number. -/
inductive IsNumeral : List Char → Prop
  | mk {sign mantissa exponent} (hsign : IsSign sign) (hmantissa : IsMantissa mantissa)
      (hexponent : IsExponent exponent) : IsNumeral (sign ++ (mantissa ++ exponent))

theorem isDigits_nil : IsDigits [] := fun _ hc => absurd hc List.not_mem_nil

theorem IsDigits.append {cs ds : List Char} (hcs : IsDigits cs) (hds : IsDigits ds) : IsDigits (cs ++ ds) :=
  List.forall_mem_append.2 ⟨hcs, hds⟩

theorem IsDigits.cons {c : Char} {cs : List Char} (hc : c.isDigit = true) (hcs : IsDigits cs) :
    IsDigits (c :: cs) :=
  List.forall_mem_cons.2 ⟨hc, hcs⟩

/-- What is no digit does not stand among digits. -/
theorem IsDigits.ne {cs : List Char} (hcs : IsDigits cs) {c d : Char} (hc : c ∈ cs)
    (hd : d.isDigit = false) : c ≠ d := by
  rintro rfl
  rw [hcs c hc] at hd
  cases hd

namespace Decimal

theorem allDigits_iff {cs : List Char} : allDigits cs = true ↔ IsDigits cs := List.all_eq_true

/-- That a text does not begin with a sign. -/
def Unsigned (cs : List Char) : Prop := ∀ c ∈ cs.head?, c ≠ '-' ∧ c ≠ '+'

theorem dropSign_of_unsigned {cs : List Char} (hcs : Unsigned cs) : dropSign cs = cs := by
  unfold dropSign
  split
  · exact absurd rfl (hcs '-' rfl).1
  · exact absurd rfl (hcs '+' rfl).2
  · rfl

theorem dropSign_append {sign cs : List Char} (hsign : IsSign sign) (hcs : Unsigned cs) :
    dropSign (sign ++ cs) = cs := by
  cases hsign with
  | none => exact dropSign_of_unsigned hcs
  | minus => rfl
  | plus => rfl

theorem exists_sign (cs : List Char) : ∃ sign, IsSign sign ∧ cs = sign ++ dropSign cs := by
  unfold dropSign
  split
  · exact ⟨['-'], .minus, rfl⟩
  · exact ⟨['+'], .plus, rfl⟩
  · exact ⟨[], .none, rfl⟩

theorem unsigned_digits {digits : List Char} (hdigits : IsDigits digits) : Unsigned digits := by
  intro c hc
  have hmem := List.mem_of_mem_head? hc
  exact ⟨hdigits.ne hmem (by decide), hdigits.ne hmem (by decide)⟩

section

variable {keep : Char → Bool} {before rest : List Char}

/-- A text is cut in front of the first character that is not kept. -/
theorem cut_append (hbefore : ∀ c ∈ before, keep c = true) (hrest : ∀ c ∈ rest.head?, keep c = false) :
    (before ++ rest).takeWhile keep = before ∧ (before ++ rest).dropWhile keep = rest := by
  rw [List.takeWhile_append_of_pos hbefore, List.dropWhile_append_of_pos hbefore]
  cases rest with
  | nil => simp
  | cons c rest => simp [hrest c rfl]

theorem exists_cut (keep : Char → Bool) (cs : List Char) : ∃ before rest, cs = before ++ rest ∧
    cs.takeWhile keep = before ∧ cs.dropWhile keep = rest ∧ ∀ c ∈ rest.head?, keep c = false := by
  refine ⟨_, _, List.takeWhile_append_dropWhile.symm, rfl, rfl, fun c hc => ?_⟩
  have hstop := List.head?_dropWhile_not keep cs
  rwa [Option.mem_def.1 hc] at hstop

end

/-- Digits are cut off in front of a point. -/
theorem cut_point {digits rest : List Char} (hdigits : IsDigits digits) (hrest : ∀ c ∈ rest.head?, c = '.') :
    (digits ++ rest).takeWhile (· != '.') = digits ∧ (digits ++ rest).dropWhile (· != '.') = rest := by
  refine cut_append (fun c hc => bne_iff_ne.2 (hdigits.ne hc (by decide))) fun c hc => ?_
  rw [hrest c hc, bne_self_eq_false]

theorem isMantissa_iff {cs : List Char} : isMantissa cs = true ↔ IsMantissa cs := by
  have hparts : isMantissa cs = true ↔
      ¬(cs.takeWhile (· != '.') = [] ∧ (cs.dropWhile (· != '.')).drop 1 = []) ∧
      IsDigits (cs.takeWhile (· != '.')) ∧ IsDigits ((cs.dropWhile (· != '.')).drop 1) := by
    simp only [isMantissa, Bool.and_eq_true, Bool.not_eq_true', Bool.eq_false_iff, ne_eq, List.isEmpty_iff,
      allDigits_iff, and_assoc]
  rw [hparts]
  constructor
  · obtain ⟨whole, rest, rfl, hwhole, hrest, hstop⟩ := exists_cut (· != '.') cs
    rw [hwhole, hrest]
    rintro ⟨hnonempty, hdigits, hfraction⟩
    cases rest with
    | nil =>
        rw [List.append_nil]
        exact .whole hdigits fun hnil => hnonempty ⟨hnil, rfl⟩
    | cons point fraction =>
        obtain rfl : point = '.' := by simpa using hstop point rfl
        exact .pointed hdigits hfraction fun hnil => hnonempty (List.append_eq_nil_iff.1 hnil)
  · rintro (⟨hdigits, hnonempty⟩ | ⟨hwhole, hfraction, hnonempty⟩)
    · obtain ⟨htake, hdrop⟩ := @cut_point cs [] hdigits (by simp)
      rw [List.append_nil] at htake hdrop
      rw [htake, hdrop]
      exact ⟨fun hnil => hnonempty hnil.1, hdigits, isDigits_nil⟩
    · rename_i whole fraction
      obtain ⟨htake, hdrop⟩ := @cut_point whole ('.' :: fraction) hwhole (by simp)
      rw [htake, hdrop]
      exact ⟨fun hnil => hnonempty (List.append_eq_nil_iff.2 hnil), hwhole, hfraction⟩

/-- A mantissa holds digits and points only. -/
theorem mem_mantissa {cs : List Char} (hcs : IsMantissa cs) {c : Char} (hc : c ∈ cs) :
    c.isDigit = true ∨ c = '.' := by
  cases hcs with
  | whole hdigits => exact .inl (hdigits c hc)
  | pointed hwhole hfraction =>
      rcases List.mem_append.1 hc with hc | hc
      · exact .inl (hwhole c hc)
      · exact (List.mem_cons.1 hc).symm.imp_left (hfraction c)

theorem mantissa_ne {cs : List Char} (hcs : IsMantissa cs) {c d : Char} (hc : c ∈ cs)
    (hdigit : d.isDigit = false) (hpoint : d ≠ '.') : c ≠ d := by
  rintro rfl
  rcases mem_mantissa hcs hc with h | h
  · rw [h] at hdigit
    cases hdigit
  · exact hpoint h

theorem mantissa_ne_nil {cs : List Char} (hcs : IsMantissa cs) : cs ≠ [] := by
  cases hcs with
  | whole _ hnonempty => exact hnonempty
  | pointed => exact List.append_ne_nil_of_right_ne_nil _ (List.cons_ne_nil _ _)

theorem unsigned_mantissa {cs : List Char} (hcs : IsMantissa cs) (rest : List Char) :
    Unsigned (cs ++ rest) := by
  intro c hc
  rw [List.head?_append_of_ne_nil _ (mantissa_ne_nil hcs)] at hc
  have hmem := List.mem_of_mem_head? hc
  exact ⟨mantissa_ne hcs hmem (by decide) (by decide), mantissa_ne hcs hmem (by decide) (by decide)⟩

theorem isExponentMark_iff {c : Char} : isExponentMark c = true ↔ c = 'e' ∨ c = 'E' := by
  simp [isExponentMark]

/-- No mark stands in a mantissa. -/
theorem isExponentMark_mantissa {cs : List Char} (hcs : IsMantissa cs) {c : Char} (hc : c ∈ cs) :
    isExponentMark c = false := by
  rw [Bool.eq_false_iff, ne_eq, isExponentMark_iff, not_or]
  exact ⟨mantissa_ne hcs hc (by decide) (by decide), mantissa_ne hcs hc (by decide) (by decide)⟩

/-- An exponent begins with a mark. -/
theorem isExponentMark_head {cs : List Char} (hcs : IsExponent cs) {c : Char} (hc : c ∈ cs.head?) :
    isExponentMark c = true := by
  cases hcs with
  | none => cases hc
  | marked hmark => rwa [← Option.mem_some.1 hc, isExponentMark_iff]

theorem isExponent_iff {cs : List Char} : isExponent cs = true ↔
    ∃ sign digits, cs = sign ++ digits ∧ IsSign sign ∧ IsDigits digits ∧ digits ≠ [] := by
  have hparts : isExponent cs = true ↔ dropSign cs ≠ [] ∧ IsDigits (dropSign cs) := by
    simp [isExponent, allDigits_iff]
  rw [hparts]
  constructor
  · rintro ⟨hnonempty, hdigits⟩
    obtain ⟨sign, hsign, hcs⟩ := exists_sign cs
    exact ⟨sign, _, hcs, hsign, hdigits, hnonempty⟩
  · rintro ⟨sign, digits, rfl, hsign, hdigits, hnonempty⟩
    rw [dropSign_append hsign (unsigned_digits hdigits)]
    exact ⟨hnonempty, hdigits⟩

/-- **A text is taken for a decimal just if the grammar derives it.** -/
theorem isNumeral_iff {cs : List Char} : isNumeral cs = true ↔ IsNumeral cs := by
  have hparts : isNumeral cs = true ↔ IsMantissa ((dropSign cs).takeWhile (!isExponentMark ·)) ∧
      ∀ mark exponent, (dropSign cs).dropWhile (!isExponentMark ·) = mark :: exponent →
      isExponent exponent = true := by
    rw [isNumeral, Bool.and_eq_true, isMantissa_iff]
    cases (dropSign cs).dropWhile (!isExponentMark ·) <;> simp
  rw [hparts]
  constructor
  · obtain ⟨sign, hsign, hcs⟩ := exists_sign cs
    obtain ⟨mantissa, rest, hbody, hmantissa, hrest, hstop⟩ := exists_cut (!isExponentMark ·) (dropSign cs)
    rw [hmantissa, hrest, hcs, hbody]
    rintro ⟨hmantissa, hexponent⟩
    refine .mk hsign hmantissa ?_
    cases rest with
    | nil => exact .none
    | cons mark exponent =>
        obtain ⟨sign', digits, rfl, hsign', hdigits, hnonempty⟩ :=
          isExponent_iff.1 (hexponent mark exponent rfl)
        exact .marked (isExponentMark_iff.1 (by simpa using hstop mark rfl)) hsign' hdigits hnonempty
  · rintro @⟨sign, mantissa, exponent, hsign, hmantissa, hexponent⟩
    have hkept : ∀ c ∈ mantissa, (!isExponentMark c) = true := by
      intro c hc
      rw [isExponentMark_mantissa hmantissa hc, Bool.not_false]
    have hstop : ∀ c ∈ exponent.head?, (!isExponentMark c) = false := by
      intro c hc
      rw [isExponentMark_head hexponent hc, Bool.not_true]
    obtain ⟨htake, hdrop⟩ := cut_append hkept hstop
    rw [dropSign_append hsign (unsigned_mantissa hmantissa exponent), htake, hdrop]
    refine ⟨hmantissa, ?_⟩
    rintro mark rest rfl
    cases hexponent with
    | marked _ hsign' hdigits hnonempty => exact isExponent_iff.2 ⟨_, _, rfl, hsign', hdigits, hnonempty⟩

end Decimal

theorem isDigits_toDigits (n : Nat) : IsDigits (Nat.toDigits 10 n) := fun _ hc =>
  Nat.isDigit_of_mem_toDigits (by decide) (by decide) hc

theorem IsNumeral.of_mantissa {sign mantissa : List Char} (hsign : IsSign sign)
    (hmantissa : IsMantissa mantissa) :
    IsNumeral (sign ++ mantissa) := by
  have hnumeral := IsNumeral.mk hsign hmantissa .none
  rwa [List.append_nil] at hnumeral

namespace Binary64

theorem isDigits_zeros (n : Nat) : IsDigits (zeros n) := by
  intro c hc
  rw [List.eq_of_mem_replicate hc]
  decide

variable {digits : List Char}

theorem isMantissa_writePlain (hdigits : IsDigits digits) (hnonempty : digits ≠ []) (exponent : Int)
    (keepPoint : Bool) : IsMantissa (writePlain digits exponent keepPoint) := by
  unfold writePlain
  split
  · have hwhole := hdigits.append (isDigits_zeros exponent.toNat)
    have hne : digits ++ zeros exponent.toNat ≠ [] := List.append_ne_nil_of_left_ne_nil hnonempty _
    cases keepPoint with
    | false =>
        rw [if_neg Bool.false_ne_true, List.append_nil]
        exact .whole hwhole hne
    | true => exact .pointed hwhole (isDigits_nil.cons (by decide)) (List.append_ne_nil_of_left_ne_nil hne _)
  · dsimp only
    split
    · refine .pointed (fun c hc => hdigits c (List.mem_of_mem_take hc))
        (fun c hc => hdigits c (List.mem_of_mem_drop hc)) ?_
      rwa [List.take_append_drop]
    · have hzero : IsDigits ['0'] := isDigits_nil.cons (by decide)
      exact .pointed hzero ((isDigits_zeros _).append hdigits) (List.cons_ne_nil _ _)

theorem isNumeral_writeScientific {sign : List Char} (hsign : IsSign sign) (hdigits : IsDigits digits)
    (hnonempty : digits ≠ []) (exponent : Int) : IsNumeral (sign ++ writeScientific digits exponent) := by
  unfold writeScientific
  refine .mk hsign ?_ ?_
  · split
    · rename_i d e rest
      have hrest : IsDigits (e :: rest) := (List.forall_mem_cons.1 hdigits).2
      have hfirst : IsDigits [d] := isDigits_nil.cons (hdigits d List.mem_cons_self)
      exact .pointed hfirst hrest (List.cons_ne_nil _ _)
    · exact .whole hdigits hnonempty
  · have hsign' : IsSign [if exponent < 0 then '-' else '+'] := by
      split
      · exact .minus
      · exact .plus
    exact .marked (.inl rfl) hsign' (isDigits_toDigits _) Nat.toDigits_ne_nil

/-- **A finite number is written as a numeral**, whatever the layout. -/
theorem isNumeral_write (layout : Layout) {x : Binary64} (hfinite : x.isFinite = true) :
    IsNumeral (x.write layout) := by
  have hnumber : x.isNaN = false := by
    rw [isFinite, decide_eq_true_eq] at hfinite
    rw [isNaN, decide_eq_false_iff_not]
    exact fun h => hfinite h.1
  have hsign : IsSign (if x.negative then ['-'] else []) := by
    split
    · exact .minus
    · exact .none
  have hdigits := isDigits_toDigits (x.shortest layout.tie).digits
  have hnonempty : Nat.toDigits 10 (x.shortest layout.tie).digits ≠ [] := Nat.toDigits_ne_nil
  rw [write, hnumber, hfinite, if_neg Bool.false_ne_true, Bool.not_true, if_neg Bool.false_ne_true]
  split
  · refine .of_mantissa hsign (Decimal.isMantissa_iff.1 ?_)
    split <;> decide
  · dsimp only
    split
    · exact .of_mantissa hsign (isMantissa_writePlain hdigits hnonempty _ _)
    · split
      · exact .of_mantissa hsign (isMantissa_writePlain hdigits hnonempty _ _)
      · exact isNumeral_writeScientific hsign hdigits hnonempty _

end Binary64

theorem isNumeral_toString (i : Int) : IsNumeral (toString i).toList := by
  cases i with
  | ofNat n =>
      have hdigits : (toString (Int.ofNat n)).toList = [] ++ Nat.toDigits 10 n := Nat.toList_repr
      rw [hdigits]
      exact .of_mantissa .none (.whole (isDigits_toDigits n) Nat.toDigits_ne_nil)
  | negSucc n =>
      have hdigits : (toString (Int.negSucc n)).toList = ['-'] ++ Nat.toDigits 10 (n + 1) := by
        rw [← Nat.toList_repr]
        exact String.toList_append
      rw [hdigits]
      exact .of_mantissa .minus (.whole (isDigits_toDigits (n + 1)) Nat.toDigits_ne_nil)

/-- A number that a JSON value can hold is written as a numeral. -/
theorem JsonNumber.isNumeral_text {n : JsonNumber} (hn : n.Proper) : IsNumeral n.text.toList := by
  cases n with
  | whole i => exact isNumeral_toString i
  | real x =>
      rw [text, String.toList_ofList]
      exact Binary64.isNumeral_write .json hn

theorem Decimal.exists_ofText? {text : String} : (∃ d, ofText? text = some d) ↔ IsNumeral text.toList := by
  rw [← isNumeral_iff, ofText?]
  split <;> simp_all

/-- That a wire value has a text that may be one of a decimal. -/
inductive Spells : Json → String → Prop
  | string (text : String) : Spells (.string text) text
  | number (n : JsonNumber) : Spells (.number n) n.text

namespace StandardScalar

variable {value : Json} {text : String}

theorem readDecimal_eq_ok (h : Spells value text) {d : Decimal} :
    readDecimal value = .ok d ↔ Decimal.ofText? text = some d := by
  unfold readDecimal
  cases h <;> (dsimp only; split <;> simp_all)

theorem read_decimal_eq_ok (h : Spells value text) {v : ScalarValue} :
    decimal.read value = .ok v ↔ ∃ d, Decimal.ofText? text = some d ∧ .decimal d = v := by
  simp only [← readDecimal_eq_ok h]
  exact Except.map_eq_ok

end StandardScalar

/-- **A decimal may be written as any numeral and as nothing else**, and so it may be any JSON number,
which is then kept as it is written. -/
theorem Decimal.accepts_numerals (text : String) :
    (isNumeral text.toList = true ↔ IsNumeral text.toList) ∧
    ((∃ d, ofText? text = some d) ↔ IsNumeral text.toList) ∧
    ((∃ v, StandardScalar.decimal.read (.string text) = .ok v) ↔ IsNumeral text.toList) ∧
    ∀ n : JsonNumber, n.Proper → ∃ d : Decimal, d.text = n.text ∧
      StandardScalar.decimal.read (.number n) = .ok (.decimal d) ∧
      StandardScalar.decimal.read (.string n.text) = .ok (.decimal d) := by
  refine ⟨isNumeral_iff, exists_ofText?, ?_, ?_⟩
  · rw [← exists_ofText?]
    simp only [StandardScalar.read_decimal_eq_ok (.string text)]
    exact ⟨fun ⟨_, d, hd, _⟩ => ⟨d, hd⟩, fun ⟨d, hd⟩ => ⟨_, d, hd, rfl⟩⟩
  · intro n hn
    obtain ⟨d, hd⟩ := exists_ofText?.2 (JsonNumber.isNumeral_text hn)
    exact ⟨d, ofText?_eq_some_iff.1 hd, (StandardScalar.read_decimal_eq_ok (.number n)).2 ⟨d, hd, rfl⟩,
      (StandardScalar.read_decimal_eq_ok (.string n.text)).2 ⟨d, hd, rfl⟩⟩

/-- A number whose text has a point and an exponent with a sign. -/
def largeNumber : JsonNumber := .real (.ofDecimal true 15 16)

theorem accepts_numerals_largeNumber : largeNumber.Proper ∧ ∃ d : Decimal, d.text = "-1.5e+17" ∧
    StandardScalar.decimal.read (.number largeNumber) = .ok (.decimal d) ∧ IsNumeral "-1.5e+17".toList := by
  have hproper : largeNumber.Proper := by rfl
  have htext : largeNumber.text = "-1.5e+17" := by rfl
  obtain ⟨-, -, hstring, hnumber⟩ := Decimal.accepts_numerals "-1.5e+17"
  obtain ⟨d, hd, hread, hread'⟩ := hnumber largeNumber hproper
  rw [htext] at hd hread'
  exact ⟨hproper, d, hd, hread, hstring.1 ⟨_, hread'⟩⟩

end GraphClient
