import GraphClient.Proofs.Document.Lexing

/-! How tokens lie in a text. They stand one behind the other, and what is left between them is
ignored text: blanks, and comments up to their line feed. So every byte of a text belongs to one token
or to one gap, and the tokens that are not invalid are cut between characters (`tokenize_covers`). -/

namespace GraphClient

/-- Text between tokens. A comment runs to its line feed, or to the end where the text `ends`. -/
inductive Gap (ends : Prop) : List Char → Prop
  | nil : Gap ends []
  | blank {c rest} (hblank : Lexer.isBlank c = true) (hrest : Gap ends rest) : Gap ends (c :: rest)
  | comment {body rest} (hbody : '\n' ∉ body) (hrest : Gap ends rest) :
      Gap ends ('#' :: (body ++ '\n' :: rest))
  | unclosed {body} (hends : ends) (hbody : '\n' ∉ body) : Gap ends ('#' :: body)

/-- One more character of a comment. -/
theorem Gap.within {ends : Prop} {c : Char} {cs : List Char} (h : Gap ends ('#' :: cs)) (hc : c ≠ '\n') :
    Gap ends ('#' :: c :: cs) := by
  cases h with
  | blank hblank => cases hblank
  | @comment body rest hbody hrest => exact .comment (List.not_mem_cons_of_ne_of_not_mem hc.symm hbody) hrest
  | unclosed hends hbody => exact .unclosed hends (List.not_mem_cons_of_ne_of_not_mem hc.symm hbody)

/-- That a span covers a piece of a text, with so much of the text behind it. -/
def Span.Covers (source : List Char) (span : Span) (piece after : List Char) : Prop :=
  ∃ before, source = before ++ (piece ++ after) ∧
    span = ⟨Text.byteLength before, Text.byteLength before + Text.byteLength piece⟩

/-- That the bytes of a span, if it has any, are ignored text. -/
def Span.Blank (source : List Char) (span : Span) : Prop :=
  span.start < span.stop → ∃ ignored after, span.Covers source ignored after ∧ Gap (after = []) ignored

/-- The spans between tokens, from a place in front of the first one on. -/
def gapsFrom (place : Nat) : List Token → List Span
  | [] => []
  | t :: ts => ⟨place, t.span.start⟩ :: gapsFrom t.span.stop ts

/-- That a token that is not invalid is cut out of a text between characters, a string with its quotes. -/
structure Token.Cut (source : List Char) (t : Token) : Prop where
  piece : t.kind ≠ .invalid → ∃ after, t.span.Covers source t.text.toList after
  string : t.kind = .string → ∃ body, t.text.toList = '"' :: (body ++ ['"'])
  blockString : t.kind = .blockString → ∃ body, t.text.toList = '"' :: '"' :: '"' :: (body ++ ['"', '"', '"'])

/-- How the tokens of a text lie in it. -/
structure Covering (source : String) (tokens : List Token) : Prop where
  /-- The last token, and no other one, is the end of the text, and it alone is empty. -/
  finish : ∃ init, tokens = init ++ [Token.finish (Text.byteLength source.toList)] ∧
    ∀ t ∈ init, t.kind ≠ .finish ∧ t.span.start < t.span.stop
  /-- Every token ends in front of those behind it. -/
  ordered : tokens.Pairwise fun t u => t.span.stop ≤ u.span.start
  /-- Nothing but ignored text stands before, between and behind tokens. -/
  gaps : ∀ gap ∈ gapsFrom 0 tokens, gap.Blank source.toList
  cut : ∀ t ∈ tokens, t.Cut source.toList

namespace Lexer

variable {c : Char} {cs rest ignored left source : List Char} {t : Token}
  {ts : List Token} {place start : Nat}

theorem splitIgnored_inside (c : Char) (rest : List Char) : splitIgnored true (c :: rest) =
    (c :: (splitIgnored (c != '\n') rest).1, (splitIgnored (c != '\n') rest).2) := rfl

theorem splitIgnored_hash (rest : List Char) : splitIgnored false ('#' :: rest) =
    ('#' :: (splitIgnored true rest).1, (splitIgnored true rest).2) := rfl

/-- What is ignored at the start of a text, or within a comment, is ignored text. -/
theorem gap_splitIgnored (cs : List Char) : Gap ((splitIgnored false cs).2 = []) (splitIgnored false cs).1 ∧
    Gap ((splitIgnored true cs).2 = []) ('#' :: (splitIgnored true cs).1) := by
  induction cs with
  | nil => exact ⟨.nil, .unclosed rfl List.not_mem_nil⟩
  | cons c rest ih =>
      constructor
      · by_cases hhash : c = '#'
        · subst hhash
          exact ih.2
        cases hblank : isBlank c with
        | true =>
            rw [splitIgnored_blank hblank]
            exact .blank hblank ih.1
        | false =>
            rw [splitIgnored_kept (by simp [hhash, hblank])]
            exact .nil
      · rw [splitIgnored_inside]
        by_cases hfeed : c = '\n'
        · subst hfeed
          exact @Gap.comment _ [] _ List.not_mem_nil ih.1
        · rw [bne_iff_ne.2 hfeed]
          exact ih.2.within hfeed

/-- The first lexeme of a text by the character it starts with. -/
inductive Scans : Char → List Char → Lexeme → Prop
  | mark {c : Char} {m : Mark} {rest : List Char} (hmark : Mark.ofChar? c = some m) :
      Scans c rest ⟨.mark m, [c], rest⟩
  | spread {left : List Char} : Scans '.' ('.' :: '.' :: left) ⟨.mark .spread, ['.', '.', '.'], left⟩
  | point {rest : List Char} (hpoints : ∀ left, rest ≠ '.' :: '.' :: left) :
      Scans '.' rest ⟨.invalid, ['.'], rest⟩
  | block {text : List Char} : Scans '"' ('"' :: '"' :: text)
      ⟨(scanBlock text).kind, '"' :: '"' :: '"' :: (scanBlock text).taken, (scanBlock text).left⟩
  | quoted {rest : List Char} (hquotes : ∀ text, rest ≠ '"' :: '"' :: text) : Scans '"' rest
      ⟨(scanQuoted rest).kind, '"' :: (scanQuoted rest).taken, (scanQuoted rest).left⟩
  | number {c : Char} {rest : List Char} (hplain : Plain c) (hstart : (c == '-' || c.isDigit) = true) :
      Scans c rest (scanNumber (c :: rest))
  | name {c : Char} {rest : List Char} (hplain : Plain c) (hnumber : ¬(c == '-' || c.isDigit) = true)
      (hstart : isNameStart c = true) : Scans c rest (scanName (c :: rest))
  | other {c : Char} {rest : List Char} (hplain : Plain c) (hnumber : ¬(c == '-' || c.isDigit) = true)
      (hname : ¬isNameStart c = true) : Scans c rest ⟨.invalid, [c], rest⟩

theorem scans_scan (c : Char) (rest : List Char) : Scans c rest (scan c rest) := by
  unfold scan
  split
  · exact .mark ‹_›
  · split
    · rename_i hc
      obtain rfl := eq_of_beq hc
      split
      · exact .spread
      · exact .point ‹_›
    · split
      · rename_i hc
        obtain rfl := eq_of_beq hc
        split
        · exact .block
        · exact .quoted ‹_›
      · have hplain : Plain c := ⟨‹_›, ‹_›, ‹_›⟩
        split
        · exact .number hplain ‹_›
        · split
          · exact .name hplain ‹_› ‹_›
          · exact .other hplain ‹_› ‹_›

/-- A text has one first lexeme. -/
theorem Scans.eq {lexeme : Lexeme} (h : Scans c rest lexeme) : scan c rest = lexeme := by
  cases h with
  | mark hmark => rw [scan.eq_def, hmark]
  | spread => rfl
  | point hpoints =>
      have hmark : Mark.ofChar? '.' = none := rfl
      rw [scan.eq_def, hmark]
      dsimp only
      rw [if_pos (beq_self_eq_true '.')]
      split
      · exact absurd rfl (hpoints _)
      · rfl
  | block => rfl
  | quoted hquotes =>
      have hmark : Mark.ofChar? '"' = none := rfl
      have hpoint : ¬('"' == '.') = true := by decide
      rw [scan.eq_def, hmark]
      dsimp only
      rw [if_neg hpoint, if_pos (beq_self_eq_true '"')]
      split
      · exact absurd rfl (hquotes _)
      · rfl
  | number hplain hstart => rw [scan_plain hplain, if_pos hstart]
  | name hplain hnumber hstart => rw [scan_plain hplain, if_neg hnumber, if_pos hstart]
  | other hplain hnumber hname => rw [scan_plain hplain, if_neg hnumber, if_neg hname]

theorem kind_scanName (cs : List Char) :
    (scanName cs).kind = .name ∨ ∃ word, (scanName cs).kind = .keyword word := by
  rw [scanName]
  dsimp only
  cases Keyword.ofText? (String.ofList (cs.takeWhile isNamePart)) with
  | none => exact .inl rfl
  | some word => exact .inr ⟨word, rfl⟩

/-- What the quotes around a lexeme are. -/
structure Lexeme.Quoted (lexeme : Lexeme) : Prop where
  finish : lexeme.kind ≠ .finish
  string : lexeme.kind = .string → ∃ body, lexeme.taken = '"' :: (body ++ ['"'])
  blockString : lexeme.kind = .blockString → ∃ body, lexeme.taken = '"' :: '"' :: '"' ::
    (body ++ ['"', '"', '"'])

theorem Lexeme.Quoted.of_kind {lexeme : Lexeme} (hfinish : lexeme.kind ≠ .finish)
    (hstring : lexeme.kind ≠ .string) (hblock : lexeme.kind ≠ .blockString) : lexeme.Quoted :=
  ⟨hfinish, fun h => absurd h hstring, fun h => absurd h hblock⟩

theorem exists_body_of_scanQuoted (h : (scanQuoted cs).kind = .string) :
    ∃ body, (scanQuoted cs).taken = body ++ ['"'] := by
  fun_induction scanQuoted cs with
  | case1 => cases h
  | case2 rest => exact ⟨[], rfl⟩
  | case3 rest => cases h
  | case4 c rest body ih =>
      obtain ⟨text, htext⟩ := ih h
      exact ⟨'\\' :: c :: text, congrArg ('\\' :: c :: ·) htext⟩
  | case5 c rest _ _ _ body ih =>
      obtain ⟨text, htext⟩ := ih h
      exact ⟨c :: text, congrArg (c :: ·) htext⟩

theorem exists_body_of_scanBlock (h : (scanBlock cs).kind = .blockString) :
    ∃ body, (scanBlock cs).taken = body ++ ['"', '"', '"'] := by
  fun_induction scanBlock cs with
  | case1 => cases h
  | case2 rest => exact ⟨[], rfl⟩
  | case3 rest body ih =>
      obtain ⟨text, htext⟩ := ih h
      exact ⟨'\\' :: '"' :: '"' :: '"' :: text, congrArg ('\\' :: '"' :: '"' :: '"' :: ·) htext⟩
  | case4 c rest _ _ body ih =>
      obtain ⟨text, htext⟩ := ih h
      exact ⟨c :: text, congrArg (c :: ·) htext⟩

theorem scan_quoted (c : Char) (rest : List Char) : (scan c rest).Quoted := by
  have hscans := scans_scan c rest
  generalize scan c rest = lexeme at hscans
  cases hscans with
  | mark => exact .of_kind (by simp) (by simp) (by simp)
  | spread => exact .of_kind (by simp) (by simp) (by simp)
  | point => exact .of_kind (by simp) (by simp) (by simp)
  | other => exact .of_kind (by simp) (by simp) (by simp)
  | @block text =>
      have hkind := kind_scanBlock text
      refine ⟨fun h => ?_, fun h => ?_, fun h => ?_⟩
      · rw [h] at hkind
        simp at hkind
      · rw [h] at hkind
        simp at hkind
      · obtain ⟨body, hbody⟩ := exists_body_of_scanBlock h
        exact ⟨body, congrArg ('"' :: '"' :: '"' :: ·) hbody⟩
  | quoted =>
      have hkind := kind_scanQuoted rest
      refine ⟨fun h => ?_, fun h => ?_, fun h => ?_⟩
      · rw [h] at hkind
        simp at hkind
      · obtain ⟨body, hbody⟩ := exists_body_of_scanQuoted h
        exact ⟨body, congrArg ('"' :: ·) hbody⟩
      · rw [h] at hkind
        simp at hkind
  | number =>
      have hkind := kind_scanNumber (c :: rest)
      refine .of_kind ?_ ?_ ?_ <;> intro h <;> simp [h] at hkind
  | name =>
      have hkind := kind_scanName (c :: rest)
      refine .of_kind ?_ ?_ ?_ <;> intro h <;> simp [h] at hkind

/-- That tokens lie in a text from a place on: in front of each of them, and at
the end, stands ignored text. -/
inductive Laid (source : List Char) : Nat → List Token → Prop
  | finish {place : Nat} (hle : place ≤ Text.byteLength source)
      (hgap : Span.Blank source ⟨place, Text.byteLength source⟩) :
      Laid source place [Token.finish (Text.byteLength source)]
  | cons {place : Nat} {t : Token} {ts : List Token} (hle : place ≤ t.span.start)
      (hgap : Span.Blank source ⟨place, t.span.start⟩)
      (hkind : t.kind ≠ .finish) (hnonempty : t.span.start < t.span.stop) (hcut : t.Cut source)
      (hrest : Laid source t.span.stop ts) : Laid source place (t :: ts)

theorem blank_empty (source : List Char) (place : Nat) : Span.Blank source ⟨place, place⟩ := fun h =>
  absurd h (Nat.lt_irrefl _)

theorem cut_invalid (h : t.kind = .invalid) : t.Cut source where
  piece hvalid := absurd h hvalid
  string hstring := TokenKind.noConfusion (h.symm.trans hstring)
  blockString hblock := TokenKind.noConfusion (h.symm.trans hblock)

theorem Laid.invalidBytes {n : Nat} (h : Laid source (place + n) ts) :
    Laid source place (invalidBytes place n ++ ts) := by
  induction n generalizing place with
  | zero => exact h
  | succ n ih =>
      refine .cons (Nat.le_refl _) (blank_empty _ _) nofun (Nat.lt_succ_self _) (cut_invalid rfl) ?_
      refine ih ?_
      rwa [Nat.add_assoc, Nat.add_comm 1]

/-- The tokens of a lexeme lie behind a gap. -/
theorem Laid.tokensOf {lexeme : Lexeme} {before : List Char} (hle : place ≤ Text.byteLength before)
    (hgap : Span.Blank source ⟨place, Text.byteLength before⟩)
    (hsource : source = before ++ (lexeme.taken ++ lexeme.left)) (htaken : lexeme.taken ≠ [])
    (hquoted : lexeme.Quoted)
    (hrest : Laid source (Text.byteLength before + Text.byteLength lexeme.taken) ts) :
    Laid source place (tokensOf (Text.byteLength before) lexeme ++ ts) := by
  have hbytes : 0 < Text.byteLength lexeme.taken :=
    Nat.pos_of_ne_zero fun h => htaken (Text.byteLength_eq_zero h)
  unfold Lexer.tokensOf
  split
  · rename_i d _ hd
    rw [hd, Text.byteLength_cons, Text.byteLength_nil, Nat.add_zero] at hrest hbytes
    split
    · rename_i hone
      rw [hone] at hrest
      exact .cons hle hgap nofun (Nat.lt_succ_self _) (cut_invalid rfl) hrest
    · obtain ⟨n, hn⟩ := Nat.exists_eq_add_of_lt hbytes
      rw [show d.utf8Size = n + 1 by omega] at hrest ⊢
      refine .cons hle hgap nofun (Nat.lt_succ_self _) (cut_invalid rfl) (Laid.invalidBytes ?_)
      rwa [Nat.add_assoc, Nat.add_comm 1]
  · refine .cons hle hgap hquoted.finish (Nat.lt_add_of_pos_right hbytes) ⟨fun _ => ?_, ?_, ?_⟩ hrest
    · rw [String.toList_ofList]
      exact ⟨lexeme.left, before, hsource, rfl⟩
    · rw [String.toList_ofList]
      exact hquoted.string
    · rw [String.toList_ofList]
      exact hquoted.blockString

/-- **The tokens of a text lie in it**, from any place on that the text before it reaches. -/
theorem laid_tokensFrom {before : List Char} (hsource : source = before ++ cs) :
    Laid source (Text.byteLength before) (tokensFrom (Text.byteLength before) cs) := by
  induction hn : cs.length using Nat.strongRecOn generalizing before cs with
  | ind n ih =>
      have hgap := (gap_splitIgnored cs).1
      rcases next_cases cs with hnone | ⟨ignored, c, rest, hcs, hsplit, hlt⟩
      · have hlength : Text.byteLength source = Text.byteLength before + Text.byteLength cs := by
          rw [hsource, Text.byteLength_append]
        rw [hnone] at hgap
        rw [tokensFrom_of_ignored hnone, ← hlength]
        refine .finish (hlength ▸ Nat.le_add_right _ _) fun _ => ⟨cs, [], ⟨before, ?_, ?_⟩, hgap⟩
        · rw [List.append_nil, hsource]
        · rw [hlength]
      · have hscanned := scan_append c rest
        obtain ⟨taken, htaken⟩ := exists_taken c rest
        have hplace : ∀ piece, Text.byteLength before + Text.byteLength piece =
            Text.byteLength (before ++ piece) :=
          fun piece => (Text.byteLength_append before piece).symm
        rw [tokensFrom_of_kept hsplit, hplace]
        refine Laid.tokensOf (hplace ignored ▸ Nat.le_add_right _ _) (fun _ => ?_) ?_ ?_
          (scan_quoted c rest) ?_
        · rw [hsplit] at hgap
          exact ⟨ignored, c :: rest, ⟨before, by rw [hsource, hcs], by rw [hplace]⟩, hgap⟩
        · rw [hscanned, hsource, hcs, List.append_assoc]
        · rw [htaken]
          exact List.cons_ne_nil _ _
        · rw [← Text.byteLength_append]
          refine ih _ (hn ▸ hlt) ?_ rfl
          rw [List.append_assoc, List.append_assoc, hscanned, hsource, hcs]

namespace Laid

theorem exists_finish (h : Laid source place ts) :
    ∃ init, ts = init ++ [Token.finish (Text.byteLength source)] ∧
    ∀ t ∈ init, t.kind ≠ .finish ∧ t.span.start < t.span.stop := by
  induction h with
  | finish => exact ⟨[], rfl, nofun⟩
  | @cons _ t _ _ _ hkind hnonempty _ _ ih =>
      obtain ⟨init, rfl, hinit⟩ := ih
      exact ⟨t :: init, rfl, List.forall_mem_cons.2 ⟨⟨hkind, hnonempty⟩, hinit⟩⟩

theorem le_start (h : Laid source place ts) : ∀ t ∈ ts, place ≤ t.span.start := by
  induction h with
  | finish hle => exact List.forall_mem_singleton.2 hle
  | cons hle _ _ hnonempty _ _ ih =>
      exact List.forall_mem_cons.2 ⟨hle,
        fun u hu => Nat.le_trans (Nat.le_trans hle (Nat.le_of_lt hnonempty)) (ih u hu)⟩

theorem pairwise (h : Laid source place ts) : ts.Pairwise fun t u => t.span.stop ≤ u.span.start := by
  induction h with
  | finish => exact List.pairwise_singleton _ _
  | cons _ _ _ _ _ hrest ih => exact .cons hrest.le_start ih

theorem gaps (h : Laid source place ts) : ∀ gap ∈ gapsFrom place ts, gap.Blank source := by
  induction h with
  | finish _ hgap => exact List.forall_mem_singleton.2 hgap
  | cons _ hgap _ _ _ _ ih => exact List.forall_mem_cons.2 ⟨hgap, ih⟩

theorem cut (h : Laid source place ts) : ∀ t ∈ ts, t.Cut source := by
  induction h with
  | finish =>
      refine List.forall_mem_singleton.2 ⟨fun _ => ⟨[], source, ?_, rfl⟩, nofun, nofun⟩
      exact (List.append_nil source).symm
  | cons _ _ _ _ hcut _ ih => exact List.forall_mem_cons.2 ⟨hcut, ih⟩

end Laid

end Lexer

/-- **The tokens of a text cover it**, up to ignored text. -/
theorem tokenize_covers (source : String) : Covering source (tokenize source) :=
  have hlaid : Lexer.Laid source.toList 0 (tokenize source) := @Lexer.laid_tokensFrom _ _ [] rfl
  { finish := hlaid.exists_finish, ordered := hlaid.pairwise, gaps := hlaid.gaps, cut := hlaid.cut }

end GraphClient
