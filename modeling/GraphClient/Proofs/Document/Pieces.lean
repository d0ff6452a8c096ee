import GraphClient.Proofs.Document.Definitions

/-! Documents as pieces of text. In a document without mistakes every definition is a piece of the text that
reads as this definition wherever it is put (`Reads`); and pieces with blank lines between them are a document
without mistakes, of just these definitions. -/

namespace GraphClient

/-- That a text, taken from the place `a` of a document, reads as a definition wherever it is put. -/
def Reads (a : Nat) (text : List Char) (definition : Definition) : Prop :=
  ∀ (b : Nat) (after : List Char) (c : Cursor), c.stream = Lexer.tokensFrom b (text ++ after) →
    c.diagnostics = [] →
    c.atEnd = false ∧
      (∃ definition', (Parser.definitionOf c c.kind).1 = some definition' ∧
        definition.Like (Moved a b (Text.byteLength text)) definition') ∧
      (Parser.definitionOf c c.kind).2.stream = Lexer.tokensFrom (b + Text.byteLength text) after ∧
      (Parser.definitionOf c c.kind).2.diagnostics = []

theorem Text.dropBytes_of_le {n : Nat} {text : List Char} (h : n ≤ byteLength text) (after : List Char) :
    dropBytes n (text ++ after) = (dropBytes n text).map (· ++ after) := by
  induction text generalizing n with
  | nil =>
      obtain rfl := Nat.le_zero.1 h
      rw [dropBytes_zero, dropBytes_zero, Option.map_some]
  | cons c text ih =>
      cases n with
      | zero => rfl
      | succ n =>
          rw [byteLength_cons] at h
          rw [List.cons_append, dropBytes, dropBytes]
          split
          · exact ih (by omega)
          · rfl

theorem Text.byteLength_of_dropBytes {n : Nat} {cs left : List Char} (h : dropBytes n cs = some left) :
    byteLength cs = n + byteLength left := by
  induction cs generalizing n with
  | nil =>
      cases n with
      | zero =>
          cases h
          rfl
      | succ n => cases h
  | cons c cs ih =>
      cases n with
      | zero =>
          cases h
          rw [Nat.zero_add]
      | succ n =>
          rw [dropBytes] at h
          split at h
          · rw [byteLength_cons, ih h]
            omega
          · cases h

theorem Text.takeBytes_of_le {n : Nat} {text : List Char} (h : n ≤ byteLength text) (after : List Char) :
    takeBytes n (text ++ after) = takeBytes n text := by
  induction text generalizing n with
  | nil =>
      obtain rfl := Nat.le_zero.1 h
      rw [takeBytes_zero, takeBytes_zero]
  | cons c text ih =>
      cases n with
      | zero => rfl
      | succ n =>
          rw [byteLength_cons] at h
          rw [List.cons_append, takeBytes, takeBytes]
          split
          · rw [ih (by omega)]
          · rfl

/-- A span within a piece covers the same characters wherever the piece stands. -/
theorem Span.chars_moved {before before' text : List Char} {span span' : Span}
    (h : span.Like (Moved (Text.byteLength before) (Text.byteLength before') (Text.byteLength text)) span')
    (after after' : List Char) :
    span'.chars (before' ++ (text ++ after')) = span.chars (before ++ (text ++ after)) := by
  obtain ⟨start, stop⟩ := span
  obtain ⟨start', stop'⟩ := span'
  obtain ⟨⟨i, hi, rfl, rfl⟩, ⟨j, hj, rfl, rfl⟩⟩ := h
  have hlength : ∀ a, (Span.mk (a + i) (a + j)).length = j - i := fun a => Nat.add_sub_add_left a j i
  rw [chars, chars, hlength, hlength, Text.dropBytes_add, Text.dropBytes_add, Text.dropBytes_of_le hi,
    Text.dropBytes_of_le hi]
  cases hdrop : Text.dropBytes i text with
  | none => rfl
  | some left =>
      have hbytes := Text.byteLength_of_dropBytes hdrop
      rw [Option.map_some, Option.map_some, Option.bind_some, Option.bind_some,
        Text.takeBytes_of_le (by omega), Text.takeBytes_of_le (by omega)]

namespace Cursor

variable {c d : Cursor}

theorem Onward.stream (h : c.Onward d) : d.stream <:+ c.stream := by
  obtain ⟨skipped, hskipped⟩ := h.tokens
  exact ⟨skipped, by rw [Cursor.stream, Cursor.stream, ← hskipped, h.size, List.append_assoc]⟩

theorem Onward.clean (h : c.Onward d) (hclean : d.diagnostics = []) : c.diagnostics = [] :=
  List.prefix_nil.1 (hclean ▸ h.diagnostics)

theorem isEmpty_stream (c : Cursor) : c.stream.isEmpty = false :=
  List.isEmpty_eq_false_iff.2 (List.append_ne_nil_of_right_ne_nil _ (List.cons_ne_nil _ _))

end Cursor

namespace Parser

theorem definitionOf_onward (c : Cursor) (kind : TokenKind) : c.Onward (definitionOf c kind).2 :=
  (definitionOf_agree c.onward_rel (Nat.zero_le _) kind (Nat.zero_le _)).2.2

theorem definitions_onward (c : Cursor) : c.Onward (definitions c).result.2 :=
  (definitions_agree c.onward_rel (Nat.zero_le _)).2.2

/-- Every definition of a document without mistakes is read at a place that reading comes to. -/
theorem exists_definitionOf {c : Cursor} (hclean : (definitions c).result.2.diagnostics = [])
    {definition : Definition} (hmem : definition ∈ (definitions c).result.1) :
    ∃ d, c.Onward d ∧ (definitionOf d d.kind).1 = some definition ∧
      (definitionOf d d.kind).2.diagnostics = [] := by
  induction hn : c.left using Nat.strongRecOn generalizing c with
  | ind n ih =>
      rw [definitions_result] at hclean hmem
      split at hclean
      · rename_i hstop
        rw [if_pos hstop] at hmem
        cases hmem
      · rename_i hstop
        rw [if_neg hstop] at hmem
        have hfirst := (definitions_onward _).clean hclean
        rcases List.mem_append.1 hmem with hmem | hmem
        · exact ⟨c, .refl c, Option.mem_toList.1 hmem, hfirst⟩
        · have hlt := left_definitionOf_lt (Cursor.left_pos_of_not_atEnd (by simpa using hstop) : 0 < c.left)
          obtain ⟨d, honward, hd⟩ := ih _ (hn ▸ hlt) hclean hmem rfl
          exact ⟨d, (definitionOf_onward c c.kind).trans honward, hd⟩

/-- The tokens of a definition: its first one, and those behind it up to the brace that closes it. -/
theorem Ends.stream {c next : Cursor} {definition : Definition} (h : Ends c definition next)
    (hkind : c.kind ≠ .finish) :
    ∃ mid last, c.stream = c.current :: (mid ++ last :: next.stream) ∧
      c.advance.stream = mid ++ last :: next.stream ∧ last.kind = .mark .closeBrace ∧
      definition.span = ⟨c.current.span.start, max last.span.stop c.current.span.start⟩ := by
  obtain ⟨rest, htokens⟩ := Cursor.tokens_of_kind rfl hkind
  obtain ⟨mid, last, hadvance, hbrace, hlast⟩ := h.closes.tokens
  have hstream : c.advance.stream = mid ++ last :: next.stream := by
    rw [Cursor.stream, hadvance, ← h.closes.size, List.append_assoc]
    rfl
  refine ⟨mid, last, ?_, hstream, hbrace, by rw [h.span, Cursor.spanFrom, hlast]⟩
  rw [← hstream, Cursor.stream, htokens, Cursor.stream, Cursor.advance, htokens]
  rfl

/-- A definition reads from the same tokens elsewhere, whatever comes behind. -/
theorem definitionOf_moved {place : Nat → Nat → Prop} {c c' : Cursor} {definition : Definition}
    (hmax : ∀ {m m' n n'}, place m m' → place n n' → place (Nat.max m n) (Nat.max m' n'))
    (hsome : (definitionOf c c.kind).1 = some definition)
    (hclean : (definitionOf c c.kind).2.diagnostics = [])
    {tokens tokens' rest' : List Token} (hstream : c.stream = tokens ++ (definitionOf c c.kind).2.stream)
    (hstream' : c'.stream = tokens' ++ rest') (hlike : List.Forall₂ (Token.Like place) tokens tokens')
    (hclean' : c'.diagnostics = []) (hrest : rest' ≠ []) :
    c'.atEnd = false ∧
      (∃ definition', (definitionOf c' c'.kind).1 = some definition' ∧ definition.Like place definition') ∧
      (definitionOf c' c'.kind).2.stream = rest' ∧ (definitionOf c' c'.kind).2.diagnostics = [] := by
  obtain ⟨hends, -, hfinish⟩ := definitionOf_ends hsome hclean
  obtain ⟨mid, last, htokens, hadvance, -⟩ := hends.stream hfinish
  obtain rfl : tokens = c.current :: (mid ++ [last]) := by
    refine List.append_cancel_right (hstream.symm.trans ?_)
    rw [htokens, List.cons_append, List.append_assoc, List.singleton_append]
  obtain _ | @⟨_, t', _, tail', ht, htail⟩ := hlike
  obtain ⟨hcurrent', hatEnd', hadvance'⟩ := @Cursor.stream_cases c' t' (tail' ++ rest') hstream'
  have hmore : (tail' ++ rest').isEmpty = false :=
    List.isEmpty_eq_false_iff.2 (List.append_ne_nil_of_right_ne_nil _ hrest)
  rw [hmore] at hatEnd' hadvance'
  have hends' : rest'.isEmpty = (definitionOf c c.kind).2.stream.isEmpty :=
    (List.isEmpty_eq_false_iff.2 hrest).trans (Cursor.isEmpty_stream _).symm
  let S := @Coupling.beside place hmax (definitionOf c c.kind).2.stream rest' hends'
  have hcoupled : S.rel c.advance c'.advance := by
    refine ⟨⟨mid ++ [last], tail', by rw [hadvance, List.append_assoc, List.singleton_append],
      hadvance', htail⟩, ?_, ?_⟩
    · dsimp only [Cursor.advance]
      rw [hcurrent']
      exact ht.span.stop
    · rw [show c'.advance.diagnostics = [] from hclean', show c.advance.diagnostics = [] from
        (definitionOf_onward c c.kind).clean hclean]
      exact .nil
  have hkind : c'.kind = c.kind := by rw [Cursor.kind, hcurrent', ht.kind, Cursor.kind]
  have hstart : place c.current.span.start c'.current.span.start := hcurrent'.symm ▸ ht.span.start
  obtain ⟨hvalue, hnext⟩ := definitionOf_agree_of_some hstart hcoupled hsome
    (.inr ⟨Nat.le_of_eq (Cursor.length_stream _), hclean⟩)
  obtain ⟨⟨passed, passed', hpassed, hpassed', hlike'⟩, -, hdiagnostics⟩ := hnext
  obtain rfl : passed = [] := List.append_cancel_right (hpassed.symm.trans (List.nil_append _).symm)
  obtain rfl := List.forall₂_nil_left_iff.1 hlike'
  rw [hclean] at hdiagnostics
  rw [hkind]
  refine ⟨hatEnd', ?_, hpassed', List.forall₂_nil_left_iff.1 hdiagnostics⟩
  rw [hsome] at hvalue
  cases hvalue' : (definitionOf c' c.kind).1 with
  | none =>
      rw [hvalue'] at hvalue
      cases hvalue
  | some definition' =>
      rw [hvalue'] at hvalue
      obtain ⟨hlike⟩ := hvalue
      exact ⟨definition', rfl, hlike⟩

/-- **The text from which a definition was read reads as it wherever it is put.** -/
theorem exists_reads {c : Cursor} {source : List Char} {pre : List Token}
    (hstream : Lexer.tokensFrom 0 source = pre ++ c.stream) {definition : Definition}
    (hsome : (definitionOf c c.kind).1 = some definition)
    (hclean : (definitionOf c c.kind).2.diagnostics = []) :
    ∃ before text after, source = before ++ (text ++ after) ∧
      definition.span = ⟨Text.byteLength before, Text.byteLength before + Text.byteLength text⟩ ∧
      Reads (Text.byteLength before) text definition := by
  obtain ⟨hends, hvalid, hfinish⟩ := definitionOf_ends hsome hclean
  obtain ⟨mid, last, htokens, hadvance, hbrace, hspan⟩ := hends.stream hfinish
  rw [htokens] at hstream
  obtain ⟨before, text, after, hsource, hstart, hstop, hpiece⟩ :=
    Lexer.exists_stretch hstream hvalid hfinish hbrace
  refine ⟨before, text, after, hsource, ?_, ?_⟩
  · rw [hspan, hstart, hstop, Nat.max_eq_left (Nat.le_add_right _ _)]
  · intro b after' c' hstream' hclean'
    obtain ⟨tokens, hfrom, hlike⟩ := hpiece b after'
    obtain ⟨tail, htail⟩ := Lexer.tokensFrom_eq_append (b + Text.byteLength text) after'
    refine definitionOf_moved Moved.max hsome hclean (by rw [htokens]; simp)
      (hstream'.trans hfrom) hlike hclean' ?_
    rw [htail]
    exact List.append_ne_nil_of_right_ne_nil _ (List.cons_ne_nil _ _)

end Parser

theorem Cursor.stream_start {source : List Char} {tokens : List Token} {size : Nat}
    (h : Lexer.tokensFrom 0 source = tokens ++ [Token.finish size]) :
    (Cursor.start tokens size).stream = Lexer.tokensFrom 0 source := h.symm

/-- The definitions of a document are read from its tokens, and what is reported
then is all that is reported. -/
theorem parseDocument_eq (source : String) : ∃ c : Cursor, c.stream = Lexer.tokensFrom 0 source.toList ∧
    c.diagnostics = [] ∧ (parseDocument source).document.definitions = (Parser.definitions c).result.1 ∧
    (parseDocument source).diagnostics = (Parser.definitions c).result.2.diagnostics := by
  obtain ⟨tokens, htokens⟩ := Lexer.tokensFrom_eq_append 0 source.toList
  refine ⟨Cursor.start tokens (0 + Text.byteLength source.toList), Cursor.stream_start htokens, rfl, ?_, ?_⟩
  all_goals
    unfold parseDocument ParseResult.ofTokens tokenize
    rw [htokens, List.dropLast_concat, List.getLast?_concat]
    rfl

/-- A piece of a text that reads as a definition. -/
structure Piece where
  /-- Where the definition was read. -/
  place : Nat
  text : List Char
  definition : Definition
  reads : Reads place text definition

namespace Piece

/-- That a definition of a text is a piece put somewhere into it. -/
def Put (source : List Char) (p : Piece) (definition : Definition) : Prop :=
  ∃ before after, source = before ++ (p.text ++ after) ∧
    p.definition.Like (Moved p.place (Text.byteLength before) (Text.byteLength p.text)) definition

/-- That a piece is cut out of a text where its definition stands. -/
def Cut (source : List Char) (p : Piece) : Prop :=
  ∃ before after, source = before ++ (p.text ++ after) ∧ p.place = Text.byteLength before ∧
    p.definition.span = ⟨Text.byteLength before, Text.byteLength before + Text.byteLength p.text⟩

theorem Cut.text {source : String} {p : Piece} (h : p.Cut source.toList) :
    p.definition.span.text source = String.ofList p.text := by
  obtain ⟨before, after, hsource, -, hspan⟩ := h
  rw [Span.text, hspan, hsource, Span.chars_append]

/-- Whatever stands in a piece covers the same text where the piece is put. -/
theorem Cut.exists_place {source source' : String} {p : Piece} {definition : Definition}
    (hcut : p.Cut source.toList)
    (hput : p.Put source'.toList definition) : ∃ place, p.definition.Like place definition ∧
      ∀ {span span' : Span}, span.Like place span' → span'.text source' = span.text source := by
  obtain ⟨before, after, hsource, hplace, -⟩ := hcut
  obtain ⟨before', after', hsource', hlike⟩ := hput
  rw [hplace] at hlike
  refine ⟨_, hlike, fun hspan => ?_⟩
  rw [Span.text, Span.text, hsource, hsource', Span.chars_moved hspan]

/-- Pieces with an empty line between them. -/
def joined : List Piece → List Char
  | [] => []
  | [p] => p.text
  | p :: q :: rest => p.text ++ '\n' :: '\n' :: joined (q :: rest)

theorem joined_eq (pieces : List Piece) :
    joined pieces = ['\n', '\n'].intercalate (pieces.map Piece.text) := by
  fun_induction joined pieces with
  | case1 => rfl
  | case2 p => simp
  | case3 p q rest ih =>
      rw [ih]
      simp [List.intercalate]

/-- What comes behind the first of some pieces. -/
theorem joined_cons (p : Piece) (rest : List Piece) :
    ∃ gap, joined (p :: rest) = p.text ++ (gap ++ joined rest) ∧
    ∀ place, Lexer.tokensFrom place (gap ++ joined rest) =
      Lexer.tokensFrom (place + Text.byteLength gap) (joined rest) := by
  cases rest with
  | nil => exact ⟨[], by rw [joined, joined, List.append_nil, List.append_nil], fun _ => rfl⟩
  | cons q rest =>
      refine ⟨['\n', '\n'], rfl, fun place => ?_⟩
      rw [List.cons_append, List.cons_append, Lexer.tokensFrom_blank rfl, Lexer.tokensFrom_blank rfl]
      rfl

/-- **Pieces joined are a document of their definitions**, without mistakes. -/
theorem definitions_joined {source before : List Char} {pieces : List Piece} {c : Cursor}
    (hsource : source = before ++ joined pieces)
    (hstream : c.stream = Lexer.tokensFrom (Text.byteLength before) (joined pieces))
    (hclean : c.diagnostics = []) :
    List.Forall₂ (Put source) pieces (Parser.definitions c).result.1 ∧
      (Parser.definitions c).result.2.diagnostics = [] := by
  induction pieces generalizing before c with
  | nil =>
      rw [joined, Lexer.tokensFrom_of_ignored rfl] at hstream
      rw [Parser.definitions_result, if_pos (by rw [(Cursor.stream_cases hstream).2.1]; rfl)]
      exact ⟨.nil, hclean⟩
  | cons p rest ih =>
      obtain ⟨gap, hjoined, htokens⟩ := joined_cons p rest
      rw [hjoined] at hsource hstream
      obtain ⟨hatEnd, ⟨definition, hsome, hlike⟩, hnext, hclean'⟩ := p.reads _ _ c hstream hclean
      rw [htokens, ← Text.byteLength_append, ← Text.byteLength_append] at hnext
      obtain ⟨hrest, hend⟩ := ih (by rw [hsource]; simp) hnext hclean'
      rw [Parser.definitions_result, if_neg (by rw [hatEnd]; nofun)]
      dsimp only
      rw [hsome]
      exact ⟨.cons ⟨before, _, hsource, hlike⟩ hrest, hend⟩

end Piece

/-- A text of joined pieces is read as their definitions. -/
theorem parseDocument_joined {source : String} {pieces : List Piece}
    (h : source.toList = Piece.joined pieces) :
    List.Forall₂ (Piece.Put source.toList) pieces (parseDocument source).document.definitions ∧
      (parseDocument source).diagnostics = [] := by
  obtain ⟨c, hstream, hclean, hdefinitions, hdiagnostics⟩ := parseDocument_eq source
  rw [hdefinitions, hdiagnostics]
  exact @Piece.definitions_joined source.toList [] pieces c h (h ▸ hstream) hclean

/-- **Every definition of a document without mistakes is a piece of its text.** -/
theorem exists_piece {source : String} (hclean : (parseDocument source).diagnostics = [])
    {definition : Definition} (hmem : definition ∈ (parseDocument source).document.definitions) :
    ∃ p : Piece, p.definition = definition ∧ p.Cut source.toList := by
  obtain ⟨c, hstream, -, hdefinitions, hdiagnostics⟩ := parseDocument_eq source
  rw [hdiagnostics] at hclean
  rw [hdefinitions] at hmem
  obtain ⟨d, honward, hsome, hclean'⟩ := Parser.exists_definitionOf hclean hmem
  obtain ⟨pre, hpre⟩ := honward.stream
  obtain ⟨before, text, after, hsource, hspan, hreads⟩ :=
    Parser.exists_reads (hstream.symm.trans hpre.symm) hsome hclean'
  exact ⟨⟨_, text, definition, hreads⟩, rfl, before, after, hsource, rfl, hspan⟩

end GraphClient
