import GraphClient.Proofs.Document.Covering
import GraphClient.Proofs.Document.Steps
import GraphClient.Proofs.Text.Digits
import Mathlib

/-! Quoted strings, and the ways to write them. A character stands for itself, behind a backslash, or as
UTF-16 code units in hexadecimal digits. However a string is written, it is one token; but a character
that takes two code units is lost where it is written with them, and only there (`literal_written`). -/

namespace GraphClient

/-- The characters with an escape of their own, by the character behind the backslash. -/
def shortEscapes : List (Char × Char) :=
  [('"', '"'), ('\\', '\\'), ('/', '/'), ('b', Char.ofNat 8), ('f', Char.ofNat 12), ('n', '\n'), ('r', '\r'),
    ('t', '\t')]

/-- The escape of a code unit: four hexadecimal digits, in small or capital letters. -/
inductive UnitEscape (n : Nat) : List Char → Prop
  | mk {digits : List Char} (hdigits : digits.map Char.toLower = Text.hexPadded 4 n) :
      UnitEscape n ('\\' :: 'u' :: digits)

/-- The ways to write a character with at most one escape. -/
inductive Spelling (c : Char) : List Char → Prop
  | raw (hc : c ∉ ['"', '\\', '\n']) : Spelling c [c]
  | short {e : Char} (he : (e, c) ∈ shortEscapes) : Spelling c ['\\', e]
  | unit {piece : List Char} (hc : c.toNat < 0x10000) (hpiece : UnitEscape c.toNat piece) : Spelling c piece

/-- A character beyond the first plane as two code units, a high surrogate and a low one. -/
inductive Pairing (c : Char) : List Char → Prop
  | mk {high low : List Char} (hc : 0x10000 ≤ c.toNat)
      (hhigh : UnitEscape (0xD800 + (c.toNat - 0x10000) / 0x400) high)
      (hlow : UnitEscape (0xDC00 + (c.toNat - 0x10000) % 0x400) low) : Pairing c (high ++ low)

/-- All ways to write a character. -/
def Written (c : Char) (piece : List Char) : Prop := Spelling c piece ∨ Pairing c piece

/-- The literal of pieces that write the characters of a string. -/
def quotedLiteral (pieces : List (List Char)) : List Char := '"' :: (pieces.flatten ++ ['"'])

namespace Text

/-- Capital digits have the values of the small ones. -/
theorem hexValue?_toLower (c : Char) : hexValue? c.toLower = hexValue? c := by
  by_cases hupper : c.val ≥ 'A'.val ∧ c.val ≤ 'Z'.val
  · have hlow : 65 ≤ c.toNat := hupper.1
    have hhigh : c.toNat ≤ 90 := hupper.2
    have hall : ∀ n < 26, hexValue? (Char.ofNat (65 + n)).toLower =
        hexValue? (Char.ofNat (65 + n)) := by decide
    have h := hall (c.toNat - 65) (by omega)
    rwa [Nat.add_sub_cancel' hlow, Char.ofNat_toNat] at h
  · rw [Char.toLower, dif_neg hupper]

theorem ofHexDigits?_map_toLower (digits : List Char) :
    ofHexDigits? (digits.map Char.toLower) = ofHexDigits? digits := by
  simp only [ofHexDigits?, List.foldlM_map, hexValue?_toLower]

/-- A hexadecimal digit is no mark of a literal, and no sign. -/
theorem not_mem_of_hexValue? {c : Char} {n : Nat} (hc : hexValue? c = some n) :
    c ∉ ['"', '\\', '\n', '+'] := by
  have hnone : ['"', '\\', '\n', '+'].all (fun d => (hexValue? d).isNone) = true := by decide
  intro hmem
  rw [Option.isNone_iff_eq_none.1 (List.all_eq_true.1 hnone c hmem)] at hc
  cases hc

theorem exists_hexValue?_of_mem {width n : Nat} {digits : List Char}
    (hdigits : digits.map Char.toLower = hexPadded width n) {c : Char} (hc : c ∈ digits) :
    ∃ d, hexValue? c = some d := by
  obtain ⟨d, hd⟩ := exists_hexDigit_of_mem_hexPadded (hdigits ▸ List.mem_map_of_mem hc)
  exact ⟨d % 16, by rw [← hexValue?_toLower, hd, hexValue?_hexDigit]⟩

end Text

namespace LiteralText

theorem unescape_raw {c : Char} (hc : c ≠ '\\') (rest : List Char) :
    unescape (c :: rest) = c :: unescape rest := by
  rw [unescape] <;> simp [hc]

theorem unescape_short {e : Char} (he : e ≠ 'u') (rest : List Char) :
    unescape ('\\' :: e :: rest) = escaped e :: unescape rest := by
  rw [unescape] <;> simp [he]

/-- Four digits that write a number. -/
theorem exists_digits {n : Nat} {piece : List Char} (hpiece : UnitEscape n piece) : ∃ a b c d,
    piece = ['\\', 'u', a, b, c, d] ∧ [a, b, c, d].map Char.toLower = Text.hexPadded 4 n := by
  obtain ⟨hdigits⟩ := hpiece
  rename_i digits
  have hlength := congrArg List.length hdigits
  rw [List.length_map, Text.length_hexPadded] at hlength
  obtain ⟨a, b, c, d, rfl⟩ := List.length_eq_four.1 hlength
  exact ⟨a, b, c, d, rfl, hdigits⟩

theorem codePoint?_of_digits {n : Nat} (hn : n < 0x10000) {a b c d : Char}
    (hdigits : [a, b, c, d].map Char.toLower = Text.hexPadded 4 n) :
    codePoint? [a, b, c, d] = if h : n.isValidChar then [Char.ofNatAux n h] else [] := by
  have hsign : a ≠ '+' := by
    obtain ⟨v, hv⟩ := Text.exists_hexValue?_of_mem hdigits (List.mem_cons_self : a ∈ [a, b, c, d])
    rintro rfl
    exact Text.not_mem_of_hexValue? hv (by decide)
  have hnumber : hexNumber? [a, b, c, d] = some n := by
    rw [hexNumber?, List.isEmpty_cons, if_neg Bool.false_ne_true, ← Text.ofHexDigits?_map_toLower, hdigits,
      Text.ofHexDigits?_hexPadded hn]
  rw [codePoint?, hnumber]
  intro rest heq
  exact hsign (List.cons.inj heq).1

/-- A code unit that is a character is that character. -/
theorem unescape_unit {c : Char} {piece : List Char} (hc : c.toNat < 0x10000)
    (hpiece : UnitEscape c.toNat piece)
    (rest : List Char) : unescape (piece ++ rest) = c :: unescape rest := by
  obtain ⟨a, b, d, e, rfl, hdigits⟩ := exists_digits hpiece
  have hvalid : c.toNat.isValidChar := c.valid
  change codePoint? [a, b, d, e] ++ unescape rest = _
  rw [codePoint?_of_digits hc hdigits, dif_pos hvalid]
  rfl

/-- A surrogate is no character, and nothing comes of it. -/
theorem unescape_surrogate {n : Nat} {piece : List Char} (hlow : 0xD800 ≤ n) (hhigh : n < 0xE000)
    (hpiece : UnitEscape n piece) (rest : List Char) : unescape (piece ++ rest) = unescape rest := by
  obtain ⟨a, b, c, d, rfl, hdigits⟩ := exists_digits hpiece
  have hinvalid : ¬n.isValidChar := by
    rintro (h | h)
    · omega
    · omega
  change codePoint? [a, b, c, d] ++ unescape rest = _
  rw [codePoint?_of_digits (by omega) hdigits, dif_neg hinvalid]
  rfl

theorem unescape_spelling {c : Char} {piece : List Char} (hpiece : Spelling c piece) (rest : List Char) :
    unescape (piece ++ rest) = c :: unescape rest := by
  cases hpiece with
  | raw hc => exact unescape_raw (fun h => hc (by rw [h]; decide)) rest
  | @short e he =>
      have hall : ∀ p ∈ shortEscapes, p.1 ≠ 'u' ∧ escaped p.1 = p.2 := by decide
      obtain ⟨hne, heq⟩ := hall _ he
      exact (unescape_short hne rest).trans (congrArg (· :: unescape rest) heq)
  | unit hc hpiece => exact unescape_unit hc hpiece rest

theorem unescape_pairing {c : Char} {piece : List Char} (hpiece : Pairing c piece) (rest : List Char) :
    unescape (piece ++ rest) = unescape rest := by
  obtain ⟨hc, hhigh, hlow⟩ := hpiece
  have hmax : c.toNat < 0x110000 := by
    rcases c.valid with h | ⟨-, h⟩
    · exact Nat.lt_of_lt_of_le h (by decide)
    · exact h
  rw [List.append_assoc, unescape_surrogate (by omega) (by omega) hhigh,
    unescape_surrogate (by omega) (by omega) hlow]

variable {s : List Char} {pieces : List (List Char)}

/-- What comes of a literal is not longer than what was written, and shorter by what was written in pairs. -/
theorem length_unescape_le (hpieces : List.Forall₂ Written s pieces) :
    (unescape pieces.flatten).length ≤ s.length := by
  induction hpieces with
  | nil => exact Nat.le_refl 0
  | cons hpiece _ ih =>
      rw [List.flatten_cons]
      rcases hpiece with hpiece | hpiece
      · rw [unescape_spelling hpiece]
        exact Nat.succ_le_succ ih
      · rw [unescape_pairing hpiece]
        exact Nat.le_succ_of_le ih

/-- **A string comes back just if nothing of it was written in pairs.** -/
theorem unescape_written (hpieces : List.Forall₂ Written s pieces) :
    unescape pieces.flatten = s ↔ List.Forall₂ Spelling s pieces := by
  induction hpieces with
  | nil => exact ⟨fun _ => .nil, fun _ => rfl⟩
  | @cons c piece later rest hpiece hrest ih =>
      rw [List.flatten_cons, List.forall₂_cons]
      constructor
      · intro heq
        rcases hpiece with hpiece | hpiece
        · rw [unescape_spelling hpiece] at heq
          exact ⟨hpiece, ih.1 (List.cons.inj heq).2⟩
        · -- the character is missing, and nothing makes up for it
          rw [unescape_pairing hpiece] at heq
          have hle := length_unescape_le hrest
          rw [heq, List.length_cons] at hle
          omega
      · rintro ⟨hpiece, hlater⟩
        rw [unescape_spelling hpiece, ih.2 hlater]

end LiteralText

namespace Lexer

/-- The lexeme with so much text in front of it. -/
def Lexeme.behind (taken : List Char) (lexeme : Lexeme) : Lexeme :=
  ⟨lexeme.kind, taken ++ lexeme.taken, lexeme.left⟩

theorem Lexeme.behind_append (taken taken' : List Char) (lexeme : Lexeme) :
    (lexeme.behind taken').behind taken = lexeme.behind (taken ++ taken') := by
  rw [behind, behind, behind, List.append_assoc]

theorem scanQuoted_plain {text : List Char} (htext : ∀ c ∈ text, c ∉ ['"', '\\', '\n']) (rest : List Char) :
    scanQuoted (text ++ rest) = (scanQuoted rest).behind text := by
  induction text with
  | nil => rfl
  | cons c text ih =>
      have hc := htext c List.mem_cons_self
      simp only [List.mem_cons, List.not_mem_nil, or_false, not_or] at hc
      rw [List.cons_append, scanQuoted, ih fun d hd => htext d (List.mem_cons_of_mem _ hd)]
      · rfl
      · exact hc.1
      · exact hc.2.2
      · intro d tail heq
        exact absurd heq hc.2.1

theorem scanQuoted_escape (e : Char) (rest : List Char) :
    scanQuoted ('\\' :: e :: rest) = (scanQuoted rest).behind ['\\', e] := by
  rw [scanQuoted]
  rfl

theorem scanQuoted_unit {n : Nat} {piece : List Char} (hpiece : UnitEscape n piece) (rest : List Char) :
    scanQuoted (piece ++ rest) = (scanQuoted rest).behind piece := by
  obtain ⟨hdigits⟩ := hpiece
  rename_i digits
  have hplain : ∀ c ∈ digits, c ∉ ['"', '\\', '\n'] := by
    intro c hc hmem
    obtain ⟨d, hd⟩ := Text.exists_hexValue?_of_mem hdigits hc
    exact Text.not_mem_of_hexValue? hd (List.mem_append_left ['+'] hmem)
  rw [List.cons_append, List.cons_append, scanQuoted_escape, scanQuoted_plain hplain, Lexeme.behind_append]
  rfl

/-- However a character is written, the scanner is at the start of the next one when it is through. -/
theorem scanQuoted_written {c : Char} {piece : List Char} (hpiece : Written c piece) (rest : List Char) :
    scanQuoted (piece ++ rest) = (scanQuoted rest).behind piece := by
  rcases hpiece with hpiece | ⟨hc, hhigh, hlow⟩
  · cases hpiece with
    | raw hc => exact scanQuoted_plain (List.forall_mem_singleton.2 hc) rest
    | short he => exact scanQuoted_escape _ rest
    | unit hc hpiece => exact scanQuoted_unit hpiece rest
  · rw [List.append_assoc, scanQuoted_unit hhigh, scanQuoted_unit hlow, Lexeme.behind_append]

variable {s : List Char} {pieces : List (List Char)} {after : List Char}

theorem scanQuoted_pieces (hpieces : List.Forall₂ Written s pieces) (after : List Char) :
    scanQuoted (pieces.flatten ++ '"' :: after) = ⟨.string, pieces.flatten ++ ['"'], after⟩ := by
  induction hpieces with
  | nil => rfl
  | cons hpiece _ ih =>
      rw [List.flatten_cons, List.append_assoc, scanQuoted_written hpiece, ih,
        Lexeme.behind, List.append_assoc]

theorem head_of_written {c : Char} {piece : List Char} (hpiece : Written c piece) (rest : List Char) :
    ∃ d, (piece ++ rest).head? = some d ∧ d ≠ '"' := by
  rcases hpiece with (hc | he | ⟨hc, hpiece⟩) | ⟨hc, ⟨hhigh⟩, hlow⟩
  · exact ⟨c, rfl, fun h => hc (h ▸ List.mem_cons_self)⟩
  · exact ⟨'\\', rfl, by decide⟩
  · obtain ⟨hdigits⟩ := hpiece
    exact ⟨'\\', rfl, by decide⟩
  · exact ⟨'\\', rfl, by decide⟩

/-- The body of a literal does not begin with the two quotes that would open a block string. -/
theorem pieces_ne_quotes (hpieces : List.Forall₂ Written s pieces) (hafter : after.head? ≠ some '"')
    (text : List Char) : pieces.flatten ++ '"' :: after ≠ '"' :: '"' :: text := by
  intro heq
  cases hpieces with
  | nil => exact hafter (by rw [(List.cons.inj heq).2]; rfl)
  | cons hpiece _ =>
      obtain ⟨d, hd, hne⟩ := head_of_written hpiece (List.flatten _ ++ '"' :: after)
      rw [List.flatten_cons, List.append_assoc] at heq
      rw [heq] at hd
      exact hne (Option.some.inj hd).symm

theorem scan_literal (hpieces : List.Forall₂ Written s pieces) (hafter : after.head? ≠ some '"') :
    scan '"' (pieces.flatten ++ '"' :: after) = ⟨.string, quotedLiteral pieces, after⟩ := by
  rw [(Scans.quoted (pieces_ne_quotes hpieces hafter)).eq, scanQuoted_pieces hpieces]
  rfl

end Lexer

/-- A literal is one string token that covers it, wherever it stands, as long as no further quote follows. -/
def OneString (literal : List Char) : Prop :=
  ∀ place after, after.head? ≠ some '"' → Lexer.tokensFrom place (literal ++ after) =
    ⟨.string, ⟨place, place + Text.byteLength literal⟩, String.ofList literal⟩ ::
      Lexer.tokensFrom (place + Text.byteLength literal) after

/-- A literal is read as a string: the parser takes its token, without complaint, and gives the string. -/
def ReadsAs (literal : List Char) (s : String) : Prop :=
  ∀ c : Cursor, c.kind = .string → c.current.text = String.ofList literal →
    (Parser.literal c).result = (.string s c.current.span, c.advance)

theorem oneString_quotedLiteral {s : List Char} {pieces : List (List Char)}
    (hpieces : List.Forall₂ Written s pieces) : OneString (quotedLiteral pieces) := by
  intro place after hafter
  have htext : quotedLiteral pieces ++ after = '"' :: (pieces.flatten ++ '"' :: after) := by
    rw [quotedLiteral, List.cons_append, List.append_assoc, List.singleton_append]
  rw [htext, Lexer.tokensFrom_of_kept (Lexer.splitIgnored_kept (by decide) _),
    Lexer.scan_literal hpieces hafter, Lexer.tokensOf_of_valid (by exact nofun)]
  rfl

theorem literal_of_string {c : Cursor} (hkind : c.kind = .string) :
    (Parser.literal c).result = (.string (LiteralText.quoted c.current.text) c.current.span, c.advance) := by
  rw [Parser.literal_result, hkind, Parser.literalOf]

theorem quoted_quotedLiteral (pieces : List (List Char)) :
    LiteralText.quoted (String.ofList (quotedLiteral pieces)) =
      String.ofList (LiteralText.unescape pieces.flatten) := by
  have hlength : (quotedLiteral pieces).length - 2 * 1 = pieces.flatten.length := by
    rw [quotedLiteral, List.length_cons, List.length_append, List.length_singleton]
    rfl
  rw [LiteralText.quoted, String.toList_ofList, LiteralText.strip, hlength, quotedLiteral, List.drop_one,
    List.tail_cons, List.take_left]

theorem readsAs_quotedLiteral {s : String} {pieces : List (List Char)} :
    ReadsAs (quotedLiteral pieces) s ↔ LiteralText.unescape pieces.flatten = s.toList := by
  have hvalue : ReadsAs (quotedLiteral pieces) s ↔
      LiteralText.quoted (String.ofList (quotedLiteral pieces)) = s := by
    constructor
    · intro hreads
      let token : Token := ⟨.string, .empty 0, String.ofList (quotedLiteral pieces)⟩
      have hread := hreads (.start [token] 0) rfl rfl
      rw [literal_of_string rfl] at hread
      exact (Literal.string.inj (congrArg Prod.fst hread)).1
    · rintro rfl c hkind htext
      rw [literal_of_string hkind, htext]
  rw [hvalue, quoted_quotedLiteral, ← String.toList_inj, String.toList_ofList]

/-- **However a string is written, its literal is one token, and it is read as the string just if no
character of it is written as a pair of code units.** -/
theorem literal_written {s : String} {pieces : List (List Char)}
    (hpieces : List.Forall₂ Written s.toList pieces) :
    OneString (quotedLiteral pieces) ∧
      (ReadsAs (quotedLiteral pieces) s ↔ List.Forall₂ Spelling s.toList pieces) :=
  ⟨oneString_quotedLiteral hpieces, readsAs_quotedLiteral.trans (LiteralText.unescape_written hpieces)⟩

/-- A letter, a quote by its escape, a letter by its code unit in digits of both
sizes, and a smiley by itself. -/
def samplePieces : List (List Char) := [['a'], ['\\', '"'], ['\\', 'u', '0', '0', 'E', 'b'], ['😀']]

theorem literal_written_samplePieces : List.Forall₂ Written "a\"ë😀".toList samplePieces ∧
    OneString (quotedLiteral samplePieces) ∧ ReadsAs (quotedLiteral samplePieces) "a\"ë😀" := by
  have hspelled : List.Forall₂ Spelling "a\"ë😀".toList samplePieces :=
    .cons (.raw (by decide)) (.cons (.short (by decide)) (.cons (.unit (by decide) (.mk (by decide)))
      (.cons (.raw (by decide)) .nil)))
  have hwritten : List.Forall₂ Written "a\"ë😀".toList samplePieces := hspelled.imp fun _ _ h => .inl h
  exact ⟨hwritten, (literal_written hwritten).1, (literal_written hwritten).2.2 hspelled⟩

/-- The smiley by its surrogates. -/
def pairedSmiley : List Char := ['\\', 'u', 'D', '8', '3', 'D', '\\', 'u', 'D', 'E', '0', '0']

/-- A smiley that is written by its surrogates is lost. -/
theorem not_literal_written :
    ¬∀ {s : String} {pieces : List (List Char)}, List.Forall₂ Written s.toList pieces →
    OneString (quotedLiteral pieces) ∧ ReadsAs (quotedLiteral pieces) s := by
  intro hall
  have hwritten : List.Forall₂ Written "😀".toList [pairedSmiley] :=
    .cons (.inr (@Pairing.mk _ ['\\', 'u', 'D', '8', '3', 'D'] ['\\', 'u', 'D', 'E', '0', '0'] (by decide)
      (.mk (by decide)) (.mk (by decide)))) .nil
  have hread := readsAs_quotedLiteral.1 (hall hwritten).2
  have hlost : LiteralText.unescape [pairedSmiley].flatten = [] := by rfl
  rw [hlost] at hread
  exact absurd hread (by decide)

end GraphClient
