import GraphClient.Proofs.Document.Covering
import GraphClient.Proofs.Document.Pieces
import Mathlib

/-! Ignored text. A token is scanned as the same token wherever its text is put in front of ignored
text or the end (`scan_again`), so the tokens of a text stay the same when the gaps between them
are filled anew; and what is read from them is the same document with the same mistakes at other
places (`parseDocument_respaced`). -/

namespace GraphClient

namespace Lexer

variable {c : Char} {cs rest taken gap : List Char} {p : Char → Bool} {place : Nat} {t : Token}

/-- That a text is empty or begins with ignored text. -/
def Apart (rest : List Char) : Prop := ∀ c ∈ rest.head?, (c == '#' || isBlank c) = true

/-- What ignored text begins with. -/
def ignoredMarks : List Char := ['#', ' ', '\t', '\r', '\n', ',', '\ufeff']

theorem mem_ignoredMarks (h : (c == '#' || isBlank c) = true) : c ∈ ignoredMarks := by
  simpa [isBlank, ignoredMarks, or_assoc] using h

theorem Apart.clear (h : Apart rest) (hp : ignoredMarks.any p = false) : Clear p rest := fun c hc =>
  Bool.eq_false_iff.2 (List.any_eq_false.1 hp c (mem_ignoredMarks (h c hc)))

/-- Ignored text does not go on a name. -/
theorem Apart.namePart (h : Apart rest) : Clear isNamePart rest := h.clear (by decide)

theorem Apart.numberEnds (h : Apart rest) : NumberEnds rest :=
  ⟨h.clear (by decide), h.clear (by decide), h.clear (by decide), h.clear (by decide)⟩

theorem takeWhile_again (h : Clear p rest) (cs : List Char) :
    (cs.takeWhile p ++ rest).takeWhile p = cs.takeWhile p := by
  rw [List.takeWhile_append_of_pos fun _ => List.mem_takeWhile_imp, takeWhile_of_clear h, List.append_nil]

theorem dropWhile_again (h : Clear p rest) (cs : List Char) :
    (cs.takeWhile p ++ rest).dropWhile p = rest := by
  rw [List.dropWhile_append_of_pos fun _ => List.mem_takeWhile_imp, dropWhile_of_clear h]

theorem splitSign_again (h : Clear p rest) (cs : List Char) :
    splitSign p ((splitSign p cs).1 ++ rest) = ((splitSign p cs).1, rest) := by
  have hnone := splitSign_of_clear h
  cases cs with
  | nil => exact hnone
  | cons c cs =>
      cases hc : p c with
      | true => simp [splitSign, hc]
      | false => simpa [splitSign, hc] using hnone

theorem Clear.takeWhile {q : Char → Bool} (h : Clear q rest)
    (hq : ∀ c, p c = true → q c = false) (cs : List Char) :
    Clear q (cs.takeWhile p ++ rest) := by
  cases cs with
  | nil => exact h
  | cons c cs =>
      rw [List.takeWhile_cons]
      split
      · rename_i hc
        exact .cons (hq c hc)
      · exact h

theorem not_isSign_of_isDigit (c : Char) (h : c.isDigit = true) : isSign c = false := by
  rw [isSign, Bool.or_eq_false_iff, beq_eq_false_iff_ne, beq_eq_false_iff_ne]
  constructor <;> (rintro rfl; cases h)

theorem splitFraction_again (hdigit : Clear Char.isDigit rest)
    (hpoint : Clear (· == '.') rest) (cs : List Char) :
    splitFraction ((splitFraction cs).1 ++ rest) = ((splitFraction cs).1, rest) := by
  have hnone := splitFraction_of_clear hpoint
  fun_cases splitFraction cs with
  | case1 d tail hd =>
      rw [List.cons_append, List.cons_append, splitFraction, if_pos hd, takeWhile_again hdigit,
        dropWhile_again hdigit]
  | case2 => exact hnone
  | case3 => exact hnone

theorem splitExponent_again (hdigit : Clear Char.isDigit rest) (hsign : Clear isSign rest)
    (hmark : Clear (fun c => c == 'e' || c == 'E') rest) (cs : List Char) :
    splitExponent ((splitExponent cs).1 ++ rest) = ((splitExponent cs).1, rest) := by
  have hnone := splitExponent_of_clear hmark
  fun_cases splitExponent cs with
  | case1 c tail hc sign digits hsplit =>
      have hsigned := splitSign_again (hsign.takeWhile not_isSign_of_isDigit digits) tail
      rw [hsplit] at hsigned
      rw [List.cons_append, List.cons_append, List.append_assoc, splitExponent, if_pos hc, hsigned]
      dsimp only
      rw [takeWhile_again hdigit, dropWhile_again hdigit, List.cons_append]
  | case2 => exact hnone
  | case3 => exact hnone

theorem Clear.fraction {q : Char → Bool} (h : Clear q rest) (hq : q '.' = false) (cs : List Char) :
    Clear q ((splitFraction cs).1 ++ rest) := by
  fun_cases splitFraction cs with
  | case1 => exact .cons hq
  | case2 => exact h
  | case3 => exact h

theorem Clear.exponent {q : Char → Bool} (h : Clear q rest)
    (hq : ∀ c, (c == 'e' || c == 'E') = true → q c = false)
    (cs : List Char) : Clear q ((splitExponent cs).1 ++ rest) := by
  fun_cases splitExponent cs with
  | case1 c tail hc => exact .cons (hq c hc)
  | case2 => exact h
  | case3 => exact h

theorem Clear.of_takeWhile {q : Char → Bool} (hne : cs.takeWhile p ≠ []) (hq : ∀ c, p c = true → q c = false)
    (rest : List Char) : Clear q (cs.takeWhile p ++ rest) := by
  cases cs with
  | nil => exact absurd rfl hne
  | cons c cs =>
      rw [List.takeWhile_cons] at hne ⊢
      split
      · rename_i hc
        exact .cons (hq c hc)
      · rename_i hc
        rw [if_neg hc] at hne
        exact absurd rfl hne

theorem scanNumber_again (hvalid : (scanNumber cs).kind ≠ .invalid) (hrest : Apart rest) :
    scanNumber ((scanNumber cs).taken ++ rest) = ⟨(scanNumber cs).kind, (scanNumber cs).taken, rest⟩ := by
  obtain ⟨hdigit, hpoint, hsign, hmark⟩ := hrest.numberEnds
  have hexponent : ∀ c : Char, (c == 'e' || c == 'E') = true → c.isDigit = false ∧ (c == '.') = false := by
    intro c hc
    rw [Bool.or_eq_true, beq_iff_eq, beq_iff_eq] at hc
    rcases hc with rfl | rfl <;> exact ⟨rfl, rfl⟩
  have hminus : ∀ c : Char, c.isDigit = true → (c == '-') = false := by
    intro c hc
    rw [beq_eq_false_iff_ne]
    rintro rfl
    cases hc
  rcases hsplit : splitSign (· == '-') cs with ⟨sign, digits⟩
  by_cases hwhole : (digits.takeWhile Char.isDigit).isEmpty = true
  · rw [scanNumber, hsplit] at hvalid
    dsimp only at hvalid
    rw [if_pos hwhole] at hvalid
    exact absurd rfl hvalid
  rcases hfraction : splitFraction (digits.dropWhile Char.isDigit) with ⟨fraction, left⟩
  rcases hexponents : splitExponent left with ⟨exponent, left'⟩
  have hscan : scanNumber cs = ⟨if fraction.isEmpty && exponent.isEmpty then .int else .float,
      sign ++ digits.takeWhile Char.isDigit ++ fraction ++ exponent, left'⟩ := by
    rw [scanNumber, hsplit]
    dsimp only
    rw [if_neg hwhole, hfraction]
    dsimp only
    rw [hexponents]
  -- each part is split off again, as what comes behind it goes on none of them
  have hexponentAgain := splitExponent_again hdigit hsign hmark left
  have hdigit₁ := hdigit.exponent (fun c hc => (hexponent c hc).1) left
  have hfractionAgain := splitFraction_again hdigit₁
    (hpoint.exponent (fun c hc => (hexponent c hc).2) left) (digits.dropWhile Char.isDigit)
  have hdigit₂ := hdigit₁.fraction rfl (digits.dropWhile Char.isDigit)
  have hsignAgain := splitSign_again (Clear.of_takeWhile (fun h => hwhole (List.isEmpty_iff.2 h)) hminus
    ((splitFraction (digits.dropWhile Char.isDigit)).1 ++ ((splitExponent left).1 ++ rest))) cs
  rw [hexponents] at hexponentAgain hfractionAgain hdigit₂ hsignAgain
  rw [hfraction] at hfractionAgain hdigit₂ hsignAgain
  rw [hsplit] at hsignAgain
  rw [hscan, scanNumber]
  dsimp only at *
  rw [List.append_assoc, List.append_assoc, List.append_assoc, hsignAgain]
  dsimp only
  rw [takeWhile_again hdigit₂, if_neg hwhole, dropWhile_again hdigit₂, hfractionAgain]
  dsimp only
  rw [hexponentAgain, List.append_assoc, List.append_assoc]

theorem scanName_again (hrest : Apart rest) (cs : List Char) :
    scanName ((scanName cs).taken ++ rest) = ⟨(scanName cs).kind, (scanName cs).taken, rest⟩ := by
  have htaken : (scanName cs).taken = cs.takeWhile isNamePart := rfl
  rw [htaken, scanName, takeWhile_again hrest.namePart, dropWhile_again hrest.namePart]
  rfl

/-- What closes a string ends it whatever comes behind. -/
theorem scanQuoted_again (h : (scanQuoted cs).kind = .string) (rest : List Char) :
    scanQuoted ((scanQuoted cs).taken ++ rest) = ⟨.string, (scanQuoted cs).taken, rest⟩ := by
  fun_induction scanQuoted cs with
  | case1 => cases h
  | case2 => rfl
  | case3 => cases h
  | case4 c cs body ih =>
      simp only [List.cons_append]
      rw [scanQuoted, ih h]
  | case5 c cs hquote hfeed hescape body ih =>
      simp only [List.cons_append]
      rw [scanQuoted, ih h]
      · exact hquote
      · exact hfeed
      · -- a backslash that takes nothing along is the last character, and leaves the string open
        rintro d tail rfl -
        cases cs with
        | nil => cases h
        | cons e cs => exact hescape e cs rfl rfl

/-- The text of a closed block string starts with three characters of the text that it was taken from. -/
theorem exists_start_of_scanBlock (h : (scanBlock cs).kind = .blockString) : ∃ x y z text left,
    (scanBlock cs).taken = x :: y :: z :: text ∧ cs = x :: y :: z :: left := by
  obtain ⟨body, hbody⟩ := exists_body_of_scanBlock h
  have happend := scanBlock_append cs
  rcases body with _ | ⟨x, _ | ⟨y, _ | ⟨z, body⟩⟩⟩
  all_goals
    rw [hbody] at happend
    exact ⟨_, _, _, _, _, hbody, happend.symm⟩

theorem scanBlock_again (h : (scanBlock cs).kind = .blockString) (rest : List Char) :
    scanBlock ((scanBlock cs).taken ++ rest) = ⟨.blockString, (scanBlock cs).taken, rest⟩ := by
  fun_induction scanBlock cs with
  | case1 => cases h
  | case2 => rfl
  | case3 cs body ih =>
      simp only [List.cons_append]
      rw [scanBlock, ih h]
  | case4 c cs hquotes hescape body ih =>
      obtain ⟨x, y, z, text, left, htaken, rfl⟩ := exists_start_of_scanBlock h
      simp only [List.cons_append]
      rw [scanBlock, ih h]
      all_goals
        rintro tail rfl heq
        rw [htaken] at heq
        simp only [List.cons_append, List.cons.injEq] at heq
      · exact hquotes (z :: left) rfl (by rw [heq.1, heq.2.1])
      · exact hescape left rfl (by rw [heq.1, heq.2.1, heq.2.2.1])

theorem kind_block_of_valid (h : (scanBlock cs).kind ≠ .invalid) : (scanBlock cs).kind = .blockString := by
  have hkind := kind_scanBlock cs
  simp only [List.mem_cons, List.not_mem_nil, or_false] at hkind
  exact hkind.resolve_left h

theorem kind_quoted_of_valid (h : (scanQuoted cs).kind ≠ .invalid) : (scanQuoted cs).kind = .string := by
  have hkind := kind_scanQuoted cs
  simp only [List.mem_cons, List.not_mem_nil, or_false] at hkind
  exact hkind.resolve_left h

/-- A text that does not begin with two quotes does not begin so in front of ignored text, as this
does not begin with a quote. -/
theorem Apart.not_quotes (hrest : Apart rest) (hne : cs ≠ []) (hquotes : ∀ text, cs ≠ '"' :: '"' :: text)
    (text : List Char) : cs ++ rest ≠ '"' :: '"' :: text := by
  intro heq
  rcases cs with _ | ⟨x, _ | ⟨y, tail⟩⟩
  · exact hne rfl
  · have hrest' : rest = '"' :: text := (List.cons.inj heq).2
    have hquote := hrest '"' (hrest' ▸ rfl)
    revert hquote
    decide
  · simp only [List.cons_append, List.cons.injEq] at heq
    exact hquotes tail (by rw [heq.1, heq.2.1])

theorem taken_ne_nil_of_quoted (h : (scanQuoted cs).kind = .string) : (scanQuoted cs).taken ≠ [] := by
  obtain ⟨body, hbody⟩ := exists_body_of_scanQuoted h
  rw [hbody]
  exact List.append_ne_nil_of_right_ne_nil body (List.cons_ne_nil _ _)

/-- **A token is scanned again** wherever its text is put in front of ignored text or the end. -/
theorem scan_again (hvalid : (scan c cs).kind ≠ .invalid) (hrest : Apart rest) : ∃ taken,
    (scan c cs).taken = c :: taken ∧ scan c (taken ++ rest) = ⟨(scan c cs).kind, c :: taken, rest⟩ := by
  obtain ⟨taken, htaken⟩ := exists_taken c cs
  refine ⟨taken, htaken, ?_⟩
  have hscans := scans_scan c cs
  generalize scan c cs = lexeme at hscans hvalid htaken
  cases hscans with
  | mark hmark =>
      obtain rfl := (List.cons.inj htaken).2
      exact (Scans.mark hmark).eq
  | spread =>
      obtain rfl := (List.cons.inj htaken).2
      rfl
  | point => exact absurd rfl hvalid
  | other => exact absurd rfl hvalid
  | @block text =>
      obtain rfl := (List.cons.inj htaken).2
      have hkind := kind_block_of_valid hvalid
      simp only [List.cons_append]
      rw [Scans.block.eq, scanBlock_again hkind rest, hkind]
  | quoted hquotes =>
      obtain rfl := (List.cons.inj htaken).2
      have hkind := kind_quoted_of_valid hvalid
      have hquotes' : ∀ text, (scanQuoted cs).taken ≠ '"' :: '"' :: text := fun text htaken =>
        hquotes (text ++ (scanQuoted cs).left) ((scanQuoted_append cs).symm.trans (by rw [htaken]; rfl))
      rw [(Scans.quoted (hrest.not_quotes (taken_ne_nil_of_quoted hkind) hquotes')).eq,
        scanQuoted_again hkind rest, hkind]
  | number hplain hstart =>
      have hagain := scanNumber_again hvalid hrest
      rw [htaken] at hagain
      exact (Scans.number hplain hstart).eq.trans hagain
  | name hplain hnumber hstart =>
      have hagain := scanName_again hrest (c :: cs)
      rw [htaken] at hagain
      exact (Scans.name hplain hnumber hstart).eq.trans hagain

theorem Gap.apart {ends : Prop} (h : Gap ends gap) : Apart gap := by
  cases h with
  | nil => exact nofun
  | blank hblank => exact fun c hc => by rw [← Option.mem_some.1 hc, hblank, Bool.or_true]
  | comment => exact fun c hc => by rw [← Option.mem_some.1 hc]; rfl
  | unclosed => exact fun c hc => by rw [← Option.mem_some.1 hc]; rfl

theorem Apart.append (h : Apart gap) (hne : gap ≠ []) (rest : List Char) : Apart (gap ++ rest) := by
  cases gap with
  | nil => exact absurd rfl hne
  | cons c gap => exact h

theorem splitIgnored_body {body : List Char} (hbody : '\n' ∉ body) (cs : List Char) :
    splitIgnored true (body ++ '\n' :: cs) =
      (body ++ '\n' :: (splitIgnored false cs).1, (splitIgnored false cs).2) := by
  induction body with
  | nil => rfl
  | cons c body ih =>
      obtain ⟨hc, hbody⟩ := not_or.1 (mt List.mem_cons.2 hbody)
      rw [List.cons_append, splitIgnored_inside, bne_iff_ne.2 (Ne.symm hc), ih hbody]
      rfl

theorem splitIgnored_unclosed {body : List Char} (hbody : '\n' ∉ body) :
    splitIgnored true body = (body, []) := by
  induction body with
  | nil => rfl
  | cons c body ih =>
      obtain ⟨hc, hbody⟩ := not_or.1 (mt List.mem_cons.2 hbody)
      rw [splitIgnored_inside, bne_iff_ne.2 (Ne.symm hc), ih hbody]

/-- Ignored text is split off, unless it ends in a comment that more text goes on. -/
theorem splitIgnored_gap {ends : Prop} (h : Gap ends gap) (hends : ends → rest = []) :
    splitIgnored false (gap ++ rest) = (gap ++ (splitIgnored false rest).1, (splitIgnored false rest).2) := by
  induction h with
  | nil => rfl
  | blank hblank _ ih => rw [List.cons_append, splitIgnored_blank hblank, ih]; rfl
  | comment hbody _ ih =>
      rw [List.cons_append, List.append_assoc, splitIgnored_hash, List.cons_append,
        splitIgnored_body hbody, ih]
      simp only [List.cons_append, List.append_assoc]
  | unclosed hclosed hbody =>
      obtain rfl := hends hclosed
      rw [List.append_nil, splitIgnored_hash, splitIgnored_unclosed hbody]
      exact Prod.ext (List.append_nil _).symm rfl

end Lexer

/-- A text that consists of some pieces with ignored text between them: between two pieces, and in
front of the first one if it comes `behind` another one, there is some; in front of the first one
otherwise and behind the last one there may be none. -/
inductive Spaced : Prop → List String → List Char → Prop
  | finish {behind : Prop} {gap : List Char} (hgap : Gap True gap) : Spaced behind [] gap
  | next {behind : Prop} {gap rest : List Char} {piece : String} {pieces : List String} (hgap : Gap False gap)
      (hne : behind → gap ≠ []) (hrest : Spaced True pieces rest) :
      Spaced behind (piece :: pieces) (gap ++ (piece.toList ++ rest))

theorem Spaced.apart {pieces : List String} {cs : List Char} (h : Spaced True pieces cs) :
    Lexer.Apart cs := by
  cases h with
  | finish hgap => exact Lexer.Gap.apart hgap
  | next hgap hne => exact (Lexer.Gap.apart hgap).append (hne trivial) _

/-- That the text of a token is scanned as this token wherever ignored text or the end comes behind it. -/
def Token.Stands (t : Token) : Prop := ∃ c taken, t.text.toList = c :: taken ∧
  (c == '#' || Lexer.isBlank c) = false ∧ t.kind ≠ .invalid ∧
  ∀ rest, Lexer.Apart rest → Lexer.scan c (taken ++ rest) = ⟨t.kind, c :: taken, rest⟩

theorem stands_of_mem {source : String} {t : Token} (ht : t ∈ tokenize source) (hvalid : t.kind ≠ .invalid)
    (hfinish : t.kind ≠ .finish) : t.Stands := by
  obtain ⟨pre, post, hsplit⟩ := List.append_of_mem ht
  obtain ⟨before, c, rest, hcs, hkept, heq, hpost⟩ := Lexer.exists_of_tokensFrom hsplit hvalid hfinish
  obtain ⟨taken, htaken⟩ := Lexer.exists_taken c rest
  refine ⟨c, taken, by rw [heq, String.toList_ofList, htaken], hkept, hvalid, fun rest' hrest' => ?_⟩
  have hkind : t.kind = (Lexer.scan c rest).kind := by rw [heq]
  obtain ⟨taken', htaken', hscan⟩ := Lexer.scan_again (hkind ▸ hvalid) hrest'
  rw [htaken] at htaken'
  obtain rfl := (List.cons.inj htaken').2
  rw [hkind, hscan]

/-- That one token is another one anywhere. -/
abbrev Token.Alike (t t' : Token) : Prop := t.Like (fun _ _ => True) t'

/-- The next token behind a gap. -/
theorem Token.Stands.tokensFrom {t : Token} (h : t.Stands) {gap rest : List Char} (hgap : Gap False gap)
    (hrest : Lexer.Apart rest) (place : Nat) : ∃ t', t.Alike t' ∧
      Lexer.tokensFrom place (gap ++ (t.text.toList ++ rest)) = t' :: Lexer.tokensFrom t'.span.stop rest := by
  obtain ⟨c, taken, htext, hkept, hvalid, hscan⟩ := h
  have hscanned := hscan rest hrest
  have hsplit := @Lexer.splitIgnored_gap (c :: (taken ++ rest)) _ _ hgap False.elim
  rw [Lexer.splitIgnored_kept hkept, List.append_nil] at hsplit
  rw [htext, List.cons_append, Lexer.tokensFrom_of_kept hsplit, hscanned, Lexer.tokensOf_of_valid hvalid]
  have hspelt : t.text = String.ofList (c :: taken) := by rw [← htext, String.ofList_toList]
  refine ⟨_, ?_, rfl⟩
  exact ⟨rfl, hspelt.symm, trivial, trivial⟩

/-- **The tokens of a spaced text** are those that its pieces come from. -/
theorem tokensFrom_spaced {tokens : List Token} (hstands : ∀ t ∈ tokens, t.Stands)
    {behind : Prop} {cs : List Char} (h : Spaced behind (tokens.map Token.text) cs) (place : Nat) :
    ∃ init size, Lexer.tokensFrom place cs = init ++ [Token.finish size] ∧
      List.Forall₂ Token.Alike tokens init := by
  induction tokens generalizing behind cs place with
  | nil =>
      obtain @⟨_, _, hgap⟩ := h
      have hsplit := @Lexer.splitIgnored_gap [] cs _ hgap fun _ => rfl
      rw [List.append_nil, Lexer.splitIgnored, List.append_nil] at hsplit
      exact ⟨[], _, Lexer.tokensFrom_of_ignored hsplit place, .nil⟩
  | cons t tokens ih =>
      obtain ⟨ht, hstands⟩ := List.forall_mem_cons.1 hstands
      obtain _ | ⟨hgap, -, hrest⟩ := h
      obtain ⟨t', halike, htokens⟩ := ht.tokensFrom hgap hrest.apart place
      obtain ⟨init, size, hinit, hlike⟩ := ih hstands hrest t'.span.stop
      exact ⟨t' :: init, size, by rw [htokens, hinit]; rfl, .cons halike hlike⟩

/-- That two texts are read alike, but for places. -/
structure ReadAlike (source source' : String) : Prop where
  kinds : (tokenize source').map Token.kind = (tokenize source).map Token.kind
  texts : (tokenize source').map Token.text = (tokenize source).map Token.text
  definitions : (parseDocument source').document.definitions.map Definition.bare =
    (parseDocument source).document.definitions.map Definition.bare
  faults : (parseDocument source').diagnostics.map Diagnostic.fault =
    (parseDocument source).diagnostics.map Diagnostic.fault

/-- **What is read depends on the kinds and the texts of the tokens alone.** -/
theorem readAlike_of_tokens {source source' : String}
    (h : List.Forall₂ Token.Alike (tokenize source) (tokenize source')) : ReadAlike source source' := by
  obtain ⟨c, hstream, hclean, hdefinitions, hdiagnostics⟩ := parseDocument_eq source
  obtain ⟨c', hstream', hclean', hdefinitions', hdiagnostics'⟩ := parseDocument_eq source'
  let S := @Coupling.beside (fun _ _ => True) (fun _ _ => trivial) [] [] rfl
  have hcoupled : S.rel c c' := {
    seen := ⟨_, _, hstream.trans (List.append_nil _).symm, hstream'.trans (List.append_nil _).symm, h⟩
    lastStop := trivial
    diagnostics := by rw [hclean, hclean']; exact .nil }
  obtain ⟨hlist, hnext⟩ := Parser.definitions_agree hcoupled (Nat.zero_le _)
  refine ⟨map_eq_of_forall₂ (fun ht => ht.kind) h, map_eq_of_forall₂ (fun ht => ht.text) h, ?_, ?_⟩
  · rw [hdefinitions, hdefinitions']
    exact map_eq_of_forall₂ (fun hlike => hlike.bare) hlist
  · rw [hdiagnostics, hdiagnostics']
    exact map_eq_of_forall₂ (fun hlike => hlike.fault) hnext.diagnostics

/-- **Ignored text does not matter.** A text without invalid tokens may be spaced in another way. -/
theorem parseDocument_respaced {source source' : String} (hvalid : ∀ t ∈ tokenize source, t.kind ≠ .invalid)
    (h : Spaced False ((tokenize source).dropLast.map Token.text) source'.toList) :
    ReadAlike source source' := by
  obtain ⟨init, hinit, hfinish⟩ := (tokenize_covers source).finish
  rw [hinit, List.dropLast_concat] at h
  have hmem : ∀ t ∈ init, t ∈ tokenize source := fun t ht => hinit ▸ List.mem_append_left _ ht
  obtain ⟨init', size, hinit', halike⟩ :=
    tokensFrom_spaced (fun t ht => stands_of_mem (hmem t ht) (hvalid t (hmem t ht)) (hfinish t ht).1) h 0
  apply readAlike_of_tokens
  rw [hinit, tokenize, hinit']
  exact List.rel_append halike (.cons ⟨rfl, rfl, trivial, trivial⟩ .nil)

/-- A query, and the same query with other text in its gaps. -/
def closeQuery : String := "\x7bme, name\x7d"

def wideQuery : String := "#mine\n\x7b me\t#name\nname,\x7d#"

theorem parseDocument_respaced_closeQuery : (∀ t ∈ tokenize closeQuery, t.kind ≠ .invalid) ∧
    Spaced False ((tokenize closeQuery).dropLast.map Token.text) wideQuery.toList ∧
      ReadAlike closeQuery wideQuery := by
  have hkinds : ∀ t ∈ tokenize closeQuery, t.kind ≠ .invalid := by
    have hall : (tokenize closeQuery).all (fun t => t.kind ≠ .invalid) = true := by cbv
    simpa using hall
  have htexts : (tokenize closeQuery).dropLast.map Token.text = ["\x7b", "me", "name", "\x7d"] := by cbv
  have hnext : ∀ {c : Char}, Lexer.isBlank c = true → Gap False [c] := fun hc => .blank hc .nil
  have hspaced : Spaced False ["\x7b", "me", "name", "\x7d"] wideQuery.toList :=
    @Spaced.next _ "#mine\n".toList _ _ _ (@Gap.comment _ "mine".toList _ (by decide) .nil) False.elim <|
    @Spaced.next _ " ".toList _ _ _ (hnext rfl) (fun _ => by decide) <|
    @Spaced.next _ "\t#name\n".toList _ _ _ (.blank rfl (@Gap.comment _ "name".toList _ (by decide) .nil))
      (fun _ => by decide) <|
    @Spaced.next _ ",".toList _ _ _ (hnext rfl) (fun _ => by decide) <|
    .finish (@Gap.unclosed _ [] trivial List.not_mem_nil)
  have hspaced' : Spaced False ((tokenize closeQuery).dropLast.map Token.text) wideQuery.toList :=
    htexts ▸ hspaced
  exact ⟨hkinds, hspaced', parseDocument_respaced hkinds hspaced'⟩

end GraphClient
