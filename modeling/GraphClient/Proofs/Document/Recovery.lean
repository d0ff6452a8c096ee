import GraphClient.Proofs.Document.Balance
import GraphClient.Proofs.Document.Derivation
import GraphClient.Proofs.Document.Joining
import GraphClient.Proofs.Except

/-! Reading on behind a definition that has no place in a document. What is left out up to the next
definition is told by the tokens alone (`skipTokens`). Behind a definition of the type system
without braces reading goes on with the next definition, if this starts with a word at which leaving
out stops; `subscription` is none of them, and of a document that starts with it the first
definition is lost (`recovers_iff`). -/

namespace GraphClient

theorem Coupling.max_eq {m m' n n' : Nat} (hm : m = m') (hn : n = n') :
    Nat.max m n = Nat.max m' n' := by rw [hm, hn]

/-- Mistakes met before do not matter to what is read, and stay in front of those met then. -/
def Coupling.behind (before : List Diagnostic) : Coupling Eq where
  bound := 0
  rel c c' := c' = { c with diagnostics := before ++ c.diagnostics }
  max := @Coupling.max_eq
  current h _ := h ▸ ⟨rfl, rfl, rfl, rfl⟩
  atEnd h _ := by rw [h]; rfl
  lastStop h := by rw [h]
  advance h _ := by rw [h]; rfl
  report _ _ _ h hspan := by rw [h, hspan.eq, Cursor.report, Cursor.report, List.append_assoc]

namespace Parser

variable {c : Cursor} {depth : Nat} {t : Token} {tokens part rest : List Token}

/-- The words at which leaving out stops. -/
def stopWords : List TokenKind := [.keyword .query, .keyword .mutation, .keyword .fragment]

/-- The tokens from where reading goes on, when a definition is left out within so many braces. -/
def skipTokens (depth : Nat) : List Token → List Token
  | [] => []
  | t :: ts =>
      if t.kind = .mark .openBrace then skipTokens (depth + 1) ts
      else if t.kind = .mark .closeBrace then if depth ≤ 1 then ts else skipTokens (depth - 1) ts
      else if depth = 0 ∧ t.kind ∈ stopWords then t :: ts
      else skipTokens depth ts

/-- Leaving out takes tokens and reports nothing. -/
theorem skipDefinition_eq (depth : Nat) (c : Cursor) :
    (skipDefinition depth c).result.2.tokens = skipTokens depth c.tokens ∧
      (skipDefinition depth c).result.2.diagnostics = c.diagnostics := by
  induction hn : c.tokens generalizing depth c with
  | nil =>
      have hend : c.atEnd = true := List.isEmpty_iff.2 hn
      rw [skipDefinition_result, if_pos hend]
      exact ⟨hn, rfl⟩
  | cons t ts ih =>
      have hmore : ¬c.atEnd = true := by
        rw [Cursor.atEnd, hn]
        exact Bool.false_ne_true
      have hkind : c.kind = t.kind := Cursor.kind_of_tokens hn
      have hadvance : c.advance.tokens = ts := by rw [Cursor.advance, hn]; rfl
      have hnext := fun depth => ih depth c.advance hadvance
      rw [skipDefinition_result, if_neg hmore, hkind, skipTokens]
      split
      · exact hnext _
      · split
        · split
          · exact ⟨hadvance, rfl⟩
          · exact hnext _
        · split
          · rename_i hstop
            have hstop' : depth = 0 ∧ t.kind ∈ stopWords := hstop
            rw [if_pos hstop']
            exact ⟨hn, rfl⟩
          · rename_i hstop
            have hstop' : ¬(depth = 0 ∧ t.kind ∈ stopWords) := hstop
            rw [if_neg hstop']
            exact hnext _

/-- That a token is passed outside of braces. -/
def Passed (t : Token) : Prop :=
  t.kind ≠ .mark .openBrace ∧ t.kind ≠ .mark .closeBrace ∧ t.kind ∉ stopWords

theorem passed_of_kind (kind : TokenKind) (h : t.kind = kind)
    (hkind : kind ≠ .mark .openBrace ∧ kind ≠ .mark .closeBrace ∧ kind ∉ stopWords) : Passed t := by
  rwa [Passed, h]

theorem skipTokens_passed (h : Passed t) (rest : List Token) :
    skipTokens 0 (t :: rest) = skipTokens 0 rest := by
  obtain ⟨hopen, hclose, hword⟩ := h
  rw [skipTokens, if_neg hopen, if_neg hclose, if_neg fun hstop => hword hstop.2]

theorem skipTokens_passed_append (h : ∀ t ∈ part, Passed t) (rest : List Token) :
    skipTokens 0 (part ++ rest) = skipTokens 0 rest := by
  induction part with
  | nil => rfl
  | cons t part ih =>
      obtain ⟨ht, hpart⟩ := List.forall_mem_cons.1 h
      rw [List.cons_append, skipTokens_passed ht, ih hpart]

/-- Within braces, balanced tokens are left out. -/
theorem skipTokens_balanced (h : Balanced part) (depth : Nat) (rest : List Token) :
    skipTokens (depth + 1) (part ++ rest) = skipTokens (depth + 1) rest := by
  have hflat : ∀ {t : Token} (ts), t.kind ≠ .mark .openBrace → t.kind ≠ .mark .closeBrace → ∀ depth,
      skipTokens (depth + 1) (t :: ts) = skipTokens (depth + 1) ts := fun ts hopen hclose depth => by
    rw [skipTokens, if_neg hopen, if_neg hclose, if_neg fun hstop => Nat.succ_ne_zero _ hstop.1]
  induction h generalizing depth rest with
  | nil => rfl
  | flat h =>
      exact hflat rest (fun hkind => by rw [hkind] at h; cases h)
        (fun hkind => by rw [hkind] at h; cases h) depth
  | append _ _ ih ih' => rw [List.append_assoc, ih, ih']
  | parens hopening _ hclosing ih =>
      rw [List.cons_append, List.append_assoc, hflat _ (by simp [hopening]) (by simp [hopening]), ih]
      exact hflat _ (by simp [hclosing]) (by simp [hclosing]) depth
  | braces hopening _ hclosing ih =>
      rw [List.cons_append, List.append_assoc, skipTokens, if_pos hopening, ih,
        List.singleton_append, skipTokens,
        if_neg (by simp [hclosing]), if_pos hclosing, if_neg (by omega)]
      rfl

/-- A group in braces is left out as a whole. -/
theorem skipTokens_braces {opening closing : Token}
    (hopening : opening.kind = .mark .openBrace) (h : Balanced part)
    (hclosing : closing.kind = .mark .closeBrace) (rest : List Token) :
    skipTokens 0 (opening :: (part ++ [closing]) ++ rest) = rest := by
  rw [List.cons_append, List.append_assoc, skipTokens, if_pos hopening, skipTokens_balanced h,
    List.singleton_append,
    skipTokens, if_neg (by simp [hclosing]), if_pos hclosing, if_pos (Nat.le_refl _)]

theorem skipTokens_word (h : t.kind ∈ stopWords) (rest : List Token) :
    skipTokens 0 (t :: rest) = t :: rest := by
  have hopen : t.kind ≠ .mark .openBrace := fun hkind => by rw [hkind] at h; revert h; decide
  have hclose : t.kind ≠ .mark .closeBrace := fun hkind => by rw [hkind] at h; revert h; decide
  rw [skipTokens, if_neg hopen, if_neg hclose, if_pos ⟨rfl, h⟩]

/-- A flat token is passed, or one to stop at. -/
theorem passed_or_word (h : t.kind.isFlat = true) : Passed t ∨ t.kind ∈ stopWords := by
  by_cases hword : t.kind ∈ stopWords
  · exact .inr hword
  · have hmark : ∀ {kind : TokenKind}, t.kind = kind → kind.isFlat = true := fun hkind => hkind ▸ h
    exact .inl ⟨fun hkind => Bool.false_ne_true (hmark hkind),
      fun hkind => Bool.false_ne_true (hmark hkind), hword⟩

/-- That leaving out comes from some tokens to what is behind them, to a word that it stops at, or to
some of the tokens that are left of them, which open `bound` more parentheses than they close at most. -/
def SkipsTo (bound : Int) (part : List Token) : Prop := ∀ rest,
  skipTokens 0 (part ++ rest) = skipTokens 0 rest ∨
    (∃ t ts, skipTokens 0 (part ++ rest) = t :: ts ∧ t.kind ∈ stopWords) ∨
    ∃ left, skipTokens 0 (part ++ rest) = left ++ rest ∧ openParens left ≤ bound

namespace SkipsTo

variable {bound : Int} {part' : List Token}

theorem flat (h : t.kind.isFlat = true) : SkipsTo bound [t] := fun rest => by
  rcases passed_or_word h with hpassed | hword
  · exact .inl (skipTokens_passed hpassed rest)
  · exact .inr (.inl ⟨t, rest, skipTokens_word hword rest, hword⟩)

theorem append (h : SkipsTo bound part) (h' : SkipsTo bound part') (hbalanced : Balanced part') :
    SkipsTo bound (part ++ part') := fun rest => by
  rw [List.append_assoc]
  rcases h (part' ++ rest) with hpassed | hword | ⟨left, hskip, hle⟩
  · rw [hpassed]
    exact h' rest
  · exact .inr (.inl hword)
  · refine .inr (.inr ⟨left ++ part', by rw [hskip, List.append_assoc], ?_⟩)
    rw [openParens_append, hbalanced.openParens_eq, add_zero]
    exact hle

/-- Within parentheses, one more of them is closed than opened behind a group in braces. -/
theorem parens {opening closing : Token} (hopening : opening.kind = .mark .openParen) (h : SkipsTo bound part)
    (hclosing : closing.kind = .mark .closeParen) :
    SkipsTo (bound - 1) (opening :: (part ++ [closing])) := fun rest => by
  rw [List.cons_append, List.append_assoc, skipTokens_passed (passed_of_kind _ hopening (by decide))]
  rcases h ([closing] ++ rest) with hpassed | hword | ⟨left, hskip, hle⟩
  · exact .inl (hpassed.trans (skipTokens_passed (passed_of_kind _ hclosing (by decide)) rest))
  · exact .inr (.inl hword)
  · refine .inr (.inr ⟨left ++ [closing], by rw [hskip, List.append_assoc], ?_⟩)
    simp only [openParens_append, openParens_cons, openParens_nil, hclosing]
    simp
    omega

theorem mono {bound' : Int} (h : SkipsTo bound part) (hle : bound ≤ bound') :
    SkipsTo bound' part := fun rest => by
  rcases h rest with hpassed | hword | ⟨left, hskip, hparens⟩
  · exact .inl hpassed
  · exact .inr (.inl hword)
  · exact .inr (.inr ⟨left, hskip, Int.le_trans hparens hle⟩)

theorem balanced (h : Balanced part) : SkipsTo 0 part := by
  induction h with
  | nil => exact fun _ => .inl rfl
  | flat h => exact .flat h
  | append _ h' ih ih' => exact ih.append ih' h'
  | parens hopening _ hclosing ih => exact (SkipsTo.parens hopening ih hclosing).mono (by decide)
  | braces hopening h hclosing =>
      exact fun rest => .inr (.inr ⟨[], skipTokens_braces hopening h hclosing rest, Int.le_refl _⟩)

end SkipsTo

/-- That some tokens are balanced and have braces only within parentheses. -/
structure Header (part : List Token) : Prop where
  balanced : Balanced part
  skips : SkipsTo (-1) part

namespace Header

variable {part' : List Token}

theorem nil : Header [] := ⟨.nil, fun _ => .inl rfl⟩

theorem flat (h : t.kind.isFlat = true) : Header [t] := ⟨.flat h, .flat h⟩

theorem append (h : Header part) (h' : Header part') : Header (part ++ part') :=
  ⟨h.balanced.append h'.balanced, h.skips.append h'.skips h'.balanced⟩

theorem paren {α : Type} {P : List Token → α → Prop} {values : List α} (h : ParenTokens P part values)
    (hP : ∀ part value, P part value → Balanced part) : Header part := by
  refine ⟨.paren h hP, ?_⟩
  cases h with
  | none => exact nil.skips
  | some hopening h hclosing =>
      exact SkipsTo.parens hopening (.balanced (Balanced.many h fun part value _ => hP part value)) hclosing

theorem directives {list : List Directive} (h : ManyTokens DirectiveTokens part list) : Header part := by
  induction h with
  | nil => exact nil
  | cons hfirst _ ih =>
      obtain ⟨hmark, ⟨hword⟩, harguments⟩ := hfirst
      refine .append (.append (flat (hmark ▸ rfl)) (.append (flat (TokenKind.isFlat_of_isName hword)) ?_)) ih
      exact .paren harguments fun _ _ => .argument

end Header

/-- The first part of a document. -/
theorem exists_first {list : List Definition} (h : DocumentTokens (t :: tokens) list) :
    ∃ part rest first list', t :: tokens = t :: part ++ rest ∧ list = first.toList ++ list' ∧
      DefinitionTokens (t :: part) first ∧ DocumentTokens rest list' := by
  generalize htokens : t :: tokens = all at h
  cases h with
  | nil => cases htokens
  | @cons part rest first list' hfirst hrest =>
      cases part with
      | nil => exact absurd rfl hfirst.ne_nil
      | cons u part =>
          obtain ⟨rfl, -⟩ := List.cons.inj htokens
          exact ⟨part, rest, first, list', rfl, rfl, hfirst, hrest⟩

/-- What a part of a document is, by its first token. Behind the word of an operation stands a
header and then the selection set. -/
theorem first_cases {first : Option Definition} (h : DefinitionTokens (t :: part) first) :
    (t.kind = .string ∨ t.kind = .blockString) ∧ part = [] ∧ first = none ∨
      t.kind = .mark .openBrace ∨
      (∃ definition, t.kind = .keyword (OperationKind.keyword definition.kind) ∧
        first = some (.operation definition) ∧
        ∃ header parts set, part = header ++ parts ∧ Header header ∧ SetTokens parts set) ∨
      ∃ definition, t.kind = .keyword .fragment ∧ first = some (.fragment definition) := by
  generalize htokens : t :: part = all at h
  cases h with
  | string hkind =>
      obtain ⟨rfl, rfl⟩ := List.cons.inj htokens
      exact .inl ⟨hkind, rfl, rfl⟩
  | operation h =>
      cases h with
      | set h =>
          obtain ⟨opening, ts, hparts, hopening⟩ := h.starts
          obtain ⟨rfl, -⟩ := List.cons.inj (htokens.trans hparts)
          exact .inr (.inl hopening)
      | @keyword _ _ part name parens _ marks _ parts set hword hname hdefinitions hdirectives hset =>
          obtain ⟨rfl, rfl⟩ := List.cons.inj htokens
          have hnamed : Header part := by
            cases hname with
            | none => exact .nil
            | some hname =>
                obtain ⟨hname, -⟩ := hname
                exact .flat (TokenKind.isFlat_of_isName hname)
          have hheader := hnamed.append
            ((Header.paren hdefinitions fun _ _ => .variableDefinition).append (.directives hdirectives))
          refine .inr (.inr (.inl ⟨_, hword, rfl, _, parts, set, ?_, hheader, hset⟩))
          rw [List.append_assoc, List.append_assoc]
  | fragment h =>
      obtain ⟨hword, -, -, -, -, -⟩ := h
      obtain ⟨rfl, -⟩ := List.cons.inj htokens
      exact .inr (.inr (.inr ⟨_, hword, rfl⟩))

/-- The tokens of a document have one tree. -/
theorem document_unique {list list' : List Definition} (h : DocumentTokens tokens list)
    (h' : DocumentTokens tokens list') : list = list' :=
  (@definitions_complete (.start tokens 0) _ h rfl).1.symm.trans
    (@definitions_complete (.start tokens 0) _ h' rfl).1

/-- Strings in front of a document say nothing. -/
theorem document_of_strings {strings : List Token} {list : List Definition}
    (hstrings : ∀ t ∈ strings, t.kind = .string ∨ t.kind = .blockString)
    (h : DocumentTokens (strings ++ tokens) list) : DocumentTokens tokens list := by
  induction strings with
  | nil => exact h
  | cons t strings ih =>
      obtain ⟨ht, hstrings⟩ := List.forall_mem_cons.1 hstrings
      obtain ⟨part, rest, first, list', htokens, rfl, hfirst, hrest⟩ := exists_first h
      rcases first_cases hfirst with ⟨-, rfl, rfl⟩ | hbrace | ⟨definition, hword, -⟩ | ⟨definition, hword, -⟩
      · obtain rfl := (List.cons.inj htokens).2
        exact ih hstrings hrest
      all_goals rcases ht with ht | ht <;> simp_all

/-- In front of a word that leaving out stops at, nothing is lost. -/
theorem skipTokens_document {word : Keyword} {list : List Definition} (h : DocumentTokens (t :: tokens) list)
    (ht : t.kind = .keyword word) (hword : word ≠ .subscription) :
    skipTokens 0 (t :: tokens) = t :: tokens := by
  obtain ⟨part, rest, first, list', -, -, hfirst, -⟩ := exists_first h
  refine skipTokens_word ?_ tokens
  rcases first_cases hfirst with ⟨hstring, -⟩ | hbrace | ⟨⟨kind, _, _, _, _, _⟩, hkind, -⟩ |
    ⟨definition, hkind, -⟩
  · rcases hstring with hstring | hstring <;> simp_all
  · simp_all
  · cases kind <;> simp_all [stopWords, OperationKind.keyword]
  · simp_all [stopWords]

/-- An operation that comes first in a document starts with its word. -/
theorem kind_of_operation {definition : OperationDefinition} {word : Keyword} {list : List Definition}
    (h : DocumentTokens (t :: tokens) (.operation definition :: list)) (ht : t.kind = .keyword word) :
    word = OperationKind.keyword definition.kind := by
  obtain ⟨part, rest, first, list', -, hlist, hfirst, -⟩ := exists_first h
  rcases first_cases hfirst with ⟨hstring, -⟩ | hbrace | ⟨definition', hkind, rfl, -⟩ | ⟨definition', -, rfl⟩
  · rcases hstring with hstring | hstring <;> simp_all
  · simp_all
  · obtain ⟨hsame, -⟩ := List.cons.inj hlist
    obtain rfl := Definition.operation.inj hsame
    exact TokenKind.keyword.inj (ht.symm.trans hkind)
  · cases (List.cons.inj hlist).1

/-- **Behind `subscription` a definition is lost.** -/
theorem not_document_skipTokens {list : List Definition} (h : DocumentTokens (t :: tokens) list)
    (ht : t.kind = .keyword .subscription) : ¬DocumentTokens (skipTokens 0 (t :: tokens)) list := by
  obtain ⟨part, rest, first, list', htokens, rfl, hfirst, hrest⟩ := exists_first h
  rcases first_cases hfirst with ⟨hstring, -⟩ | hbrace |
    ⟨definition, hkind, rfl, header, parts, set, rfl, hheader, hset⟩ |
    ⟨definition, hkind, -⟩
  · rcases hstring with hstring | hstring <;> simp_all
  · simp_all
  · have hkeyword : OperationKind.keyword definition.kind = .subscription :=
      TokenKind.keyword.inj (hkind.symm.trans ht)
    have hsplit : t :: tokens = t :: header ++ (parts ++ rest) := by
      rw [htokens, List.cons_append, List.cons_append, List.append_assoc]
    have hword : t.kind.isFlat = true := by rw [ht]; rfl
    intro hskipped
    rw [hsplit] at hskipped
    rcases (Header.append (.flat hword) hheader).skips (parts ++ rest) with
      hpassed | ⟨word, ts, hskip, hword⟩ | ⟨left, hskip, hparens⟩
    · -- the whole definition is left out
      have hset' : skipTokens 0 (parts ++ rest) = rest := by
        obtain ⟨hopening, hselections, -, hclosing⟩ := hset
        exact skipTokens_braces hopening (.selections hselections) hclosing rest
      rw [List.singleton_append] at hpassed
      rw [hpassed, hset'] at hskipped
      have hsame := congrArg List.length (document_unique hskipped hrest)
      simp at hsame
    · -- reading goes on with an operation of another kind, or with a fragment
      rw [List.singleton_append] at hskip
      rw [hskip] at hskipped
      simp only [stopWords, List.mem_cons, List.not_mem_nil, or_false] at hword
      rcases hword with hword | hword | hword
      all_goals
        have hsame := kind_of_operation hskipped hword
        rw [hkeyword] at hsame
        cases hsame
    · -- reading goes on within parentheses
      rw [List.singleton_append] at hskip
      rw [hskip] at hskipped
      have hclosed := (Balanced.document hskipped).openParens_eq
      rw [openParens_append, openParens_append, (Balanced.set hset).openParens_eq,
        (Balanced.document hrest).openParens_eq] at hclosed
      omega
  · simp_all

/-- Tokens at other places are derived from the same definitions. -/
theorem document_alike {tokens' : List Token} {list : List Definition} (h : DocumentTokens tokens list)
    (halike : List.Forall₂ Token.Alike tokens tokens') : DocumentTokens tokens' list := by
  obtain ⟨hlist, hclean⟩ := @definitions_complete (.start tokens 0) _ h rfl
  let S := @Coupling.beside (fun _ _ => True) (fun _ _ => trivial) [] [] rfl
  have hcoupled : S.rel (.start tokens 0) (.start tokens' 0) := {
    seen := ⟨tokens ++ [.finish 0], tokens' ++ [.finish 0], (List.append_nil _).symm,
      (List.append_nil _).symm, List.rel_append halike (.cons ⟨rfl, rfl, trivial, trivial⟩ .nil)⟩
    lastStop := trivial
    diagnostics := .nil }
  obtain ⟨hagree, hnext⟩ := definitions_agree hcoupled (Nat.zero_le _)
  have hdiagnostics := hnext.diagnostics
  rw [hclean] at hdiagnostics
  have hsound := definitions_sound (List.forall₂_nil_left_iff.1 hdiagnostics)
  rwa [map_eq_of_forall₂ (fun hlike => hlike.bare) hagree, hlist] at hsound

theorem worded_typeSystem {word : Keyword} (h : word.startsTypeSystem = true) (c : Cursor) : worded c word =
    (none, (skipDefinition 0 (c.report (.typeSystem word) c.current.span).advance).result.2) := by
  cases word with
  | query | mutation | subscription | fragment | on | true | false | null => cases h
  | _ => rfl

/-- Behind a word of the type system reading goes on where leaving out stops, as if nothing had stood
before, but that the definition is reported. -/
theorem definitions_typeSystem {word : Keyword} (hclean : c.diagnostics = [])
    (htokens : c.tokens = t :: tokens)
    (ht : t.kind = .keyword word) (hword : word.startsTypeSystem = true) : ∃ d : Cursor,
      d.tokens = skipTokens 0 tokens ∧ d.diagnostics = [] ∧
      (definitions c).result.1.map Definition.bare = (definitions d).result.1.map Definition.bare ∧
      (definitions c).result.2.diagnostics =
        ⟨.typeSystem word, t.span⟩ :: (definitions d).result.2.diagnostics := by
  have hmore : ¬c.atEnd = true := by
    rw [Cursor.atEnd, htokens]
    exact Bool.false_ne_true
  have hcurrent : c.current = t := by rw [Cursor.current, htokens]; rfl
  have hkind : c.kind = .keyword word := by rw [Cursor.kind, hcurrent, ht]
  obtain ⟨hskipped, hreported⟩ := skipDefinition_eq 0 (c.report (.typeSystem word) c.current.span).advance
  have hadvance : (c.report (.typeSystem word) c.current.span).advance.tokens = tokens := by
    rw [Cursor.advance, Cursor.report, htokens]
    rfl
  have hdiagnostics : (c.report (.typeSystem word) c.current.span).advance.diagnostics =
      [⟨.typeSystem word, t.span⟩] := by
    rw [Cursor.advance, Cursor.report, hclean, hcurrent]
    rfl
  rw [hadvance] at hskipped
  rw [hdiagnostics] at hreported
  rw [definitions_result, if_neg hmore, hkind, definitionOf, worded_typeSystem hword]
  dsimp only
  generalize (skipDefinition 0 (c.report (.typeSystem word) c.current.span).advance).result.2 =
    next at hskipped hreported
  refine ⟨{ next with diagnostics := [] }, hskipped, rfl, ?_⟩
  have hcoupled : (Coupling.behind next.diagnostics).rel { next with diagnostics := [] } next := by
    show next = { next with diagnostics := next.diagnostics ++ [] }
    rw [List.append_nil]
  obtain ⟨hlist, hnext⟩ := definitions_agree hcoupled (Nat.zero_le _)
  refine ⟨map_eq_of_forall₂ (fun hlike => hlike.bare) hlist, ?_⟩
  rw [show (definitions next).result.2 = _ from hnext, hreported]
  rfl

end Parser

theorem exists_append_of_forall₂ {α β : Type} {R : α → β → Prop} {first second : List α} {list : List β}
    (h : List.Forall₂ R (first ++ second) list) :
    ∃ first' second', list = first' ++ second' ∧ List.Forall₂ R first first' ∧
      List.Forall₂ R second second' := by
  induction first generalizing list with
  | nil => exact ⟨[], list, rfl, .nil, h⟩
  | cons a first ih =>
      obtain ⟨b, rest, hab, hrest, rfl⟩ := List.forall₂_cons_left_iff.1 h
      obtain ⟨first', second', rfl, hfirst, hsecond⟩ := ih hrest
      exact ⟨b :: first', second', rfl, .cons hab hfirst, hsecond⟩

/-- That a text is a definition of the type system that starts with a word, has no braces, and has no
word that starts a definition of a document. -/
def TypeSystemText (word : Keyword) (source : String) : Prop :=
  ∃ head mid, (tokenize source).dropLast = head :: mid ∧ head.kind = .keyword word ∧
    word.startsTypeSystem = true ∧
    ∀ t ∈ mid, t.kind ∉ [.mark .openBrace, .mark .closeBrace, .keyword .query, .keyword .mutation,
      .keyword .subscription, .keyword .fragment]

/-- That the first definition of a text starts with a word. Strings may stand before it. -/
def StartsWith (word : Keyword) (source : String) : Prop :=
  ∃ strings head rest, (tokenize source).dropLast = strings ++ head :: rest ∧
    (∀ t ∈ strings, t.kind = .string ∨ t.kind = .blockString) ∧ head.kind = .keyword word

/-- That a definition of the type system is all that is reported of a text, and
that it is read as another text. -/
structure Recovers (word : Keyword) (second source : String) : Prop where
  faults : (parseDocument source).diagnostics.map Diagnostic.fault = [.typeSystem word]
  definitions : (parseDocument source).document.definitions.map Definition.bare =
    (parseDocument second).document.definitions.map Definition.bare

/-- The tokens of a joined text whose first part is a definition of the type system. Behind its word
they are passed up to the second part. -/
theorem TypeSystemText.tokens {first second source : String} {word : Keyword}
    (hfirst : TypeSystemText word first) (hjoined : Joined first second source) : ∃ head mid tokens,
      (tokenize source).dropLast = head :: (mid ++ tokens) ∧ head.kind = .keyword word ∧
        word.startsTypeSystem = true ∧
        (∀ t ∈ mid, Parser.Passed t) ∧ List.Forall₂ Token.Alike (tokenize second).dropLast tokens := by
  obtain ⟨head, mid, hfirstTokens, hhead, hword, hmid⟩ := hfirst
  have halike := hjoined.dropLast
  rw [hfirstTokens, List.cons_append] at halike
  obtain ⟨head', tail', hhead', htail', hsource⟩ := List.forall₂_cons_left_iff.1 halike
  obtain ⟨mid', tokens', rfl, hmid', htokens'⟩ := exists_append_of_forall₂ htail'
  refine ⟨head', mid', tokens', hsource, hhead'.kind.trans hhead, hword, fun t ht => ?_, htokens'⟩
  obtain ⟨s, hs, hlike⟩ := exists_of_mem_forall₂ hmid' ht
  have hother := hmid s hs
  exact Parser.passed_of_kind _ hlike.kind (by simp_all [Parser.stopWords])

/-- The same tokens elsewhere start with the same word. -/
theorem StartsWith.tokens {second : String} {start : Keyword} (h : StartsWith start second)
    {tokens : List Token}
    (halike : List.Forall₂ Token.Alike (tokenize second).dropLast tokens) : ∃ strings top rest,
      tokens = strings ++ top :: rest ∧ (∀ t ∈ strings, t.kind = .string ∨ t.kind = .blockString) ∧
        top.kind = .keyword start := by
  obtain ⟨strings, top, rest, htokens, hstrings, htop⟩ := h
  rw [htokens] at halike
  obtain ⟨strings', more', rfl, hstrings', hmore'⟩ := exists_append_of_forall₂ halike
  obtain ⟨top', rest', htop', -, rfl⟩ := List.forall₂_cons_left_iff.1 hmore'
  refine ⟨strings', top', rest', rfl, fun t ht => ?_, htop'.kind.trans htop⟩
  obtain ⟨s, hs, hlike⟩ := exists_of_mem_forall₂ hstrings' ht
  rw [hlike.kind]
  exact hstrings s hs

/-- A text is read as another one behind a definition of the type system just if the other one's
definitions are derived from the tokens that reading goes on with. -/
theorem recovers_iff_document {second source : String} {word : Keyword} {head : Token} {tokens : List Token}
    (hsource : (tokenize source).dropLast = head :: tokens) (hhead : head.kind = .keyword word)
    (hword : word.startsTypeSystem = true) : Recovers word second source ↔
      DocumentTokens (Parser.skipTokens 0 tokens)
        ((parseDocument second).document.definitions.map Definition.bare) := by
  obtain ⟨c, hstream, hclean, hdefinitions, hdiagnostics⟩ := parseDocument_eq source
  have htokens : c.tokens = head :: tokens := by
    rw [← hsource, tokenize, ← hstream, Cursor.stream, List.dropLast_concat]
  obtain ⟨d, hskipped, hdClean, hbare, hreported⟩ := Parser.definitions_typeSystem hclean htokens hhead hword
  rw [← hskipped]
  constructor
  · rintro ⟨hfaults, hlist⟩
    rw [hdiagnostics, hreported, List.map_cons, List.cons.injEq, List.map_eq_nil_iff] at hfaults
    rw [hdefinitions, hbare] at hlist
    exact hlist ▸ Parser.definitions_sound hfaults.2
  · intro hderived
    obtain ⟨hlist, hend⟩ := Parser.definitions_complete hderived hdClean
    refine ⟨?_, by rw [hdefinitions, hbare, hlist]⟩
    rw [hdiagnostics, hreported, hend]
    rfl

/-- **A document behind a definition of the type system** is read as by itself just if it does not start with
`subscription`. -/
theorem recovers_iff {first second source : String} {word start : Keyword}
    (hfirst : TypeSystemText word first)
    (hclean : (parseDocument second).diagnostics = []) (hstart : StartsWith start second)
    (hjoined : Joined first second source) : Recovers word second source ↔ start ≠ .subscription := by
  obtain ⟨head, mid, tokens, hsource, hhead, hword, hmid, halike⟩ := hfirst.tokens hjoined
  obtain ⟨strings, top, rest, rfl, hstrings, htop⟩ := hstart.tokens halike
  have hderives : DocumentTokens (tokenize second).dropLast _ :=
    ((parseDocument_derives second).2 _).2 ⟨hclean, rfl⟩
  have hdocument := Parser.document_of_strings hstrings (Parser.document_alike hderives halike)
  have hskip : Parser.skipTokens 0 (mid ++ (strings ++ top :: rest)) = Parser.skipTokens 0 (top :: rest) := by
    rw [Parser.skipTokens_passed_append hmid, Parser.skipTokens_passed_append]
    exact fun t ht => (hstrings t ht).elim (fun hkind => Parser.passed_of_kind _ hkind (by decide))
      fun hkind => Parser.passed_of_kind _ hkind (by decide)
  rw [recovers_iff_document hsource hhead hword, hskip]
  constructor
  · rintro hderived rfl
    exact Parser.not_document_skipTokens hdocument htop hderived
  · intro hother
    rwa [Parser.skipTokens_document hdocument htop hother]

/-- A definition of the type system, and two documents. -/
def dateText : String := "scalar Date"

def tickQuery : String := "query Ticks \x7b tick \x7d"

def tickSubscription : String := "subscription Ticks \x7b tick \x7d"

theorem typeSystemText_dateText : TypeSystemText .scalar dateText := by
  have htokens : (tokenize dateText).dropLast =
      [⟨.keyword .scalar, ⟨0, 6⟩, "scalar"⟩, ⟨.name, ⟨7, 11⟩, "Date"⟩] := by cbv
  exact ⟨_, _, htokens, rfl, rfl, List.forall_mem_singleton.2 (by decide)⟩

theorem valid_dateText : ∀ t ∈ tokenize dateText, t.kind ≠ .invalid := by
  have hall : (tokenize dateText).all (fun t => t.kind ≠ .invalid) = true := by cbv
  simpa using hall

theorem recovers_tickQuery : TypeSystemText .scalar dateText ∧ (parseDocument tickQuery).diagnostics = [] ∧
    StartsWith .query tickQuery ∧ Joined dateText tickQuery (dateText ++ "\n" ++ tickQuery) ∧
    Recovers .scalar tickQuery (dateText ++ "\n" ++ tickQuery) := by
  have hclean : (parseDocument tickQuery).diagnostics = [] := by cbv
  have hstart : StartsWith .query tickQuery :=
    ⟨[], ⟨.keyword .query, ⟨0, 5⟩, "query"⟩, _, by cbv, List.forall_mem_nil _, rfl⟩
  have hjoined := joined_feed valid_dateText tickQuery
  exact ⟨typeSystemText_dateText, hclean, hstart, hjoined,
    (recovers_iff typeSystemText_dateText hclean hstart hjoined).2 (by decide)⟩

/-- A subscription behind a scalar is lost. -/
theorem not_recovers : ¬∀ {first second source : String} {word start : Keyword}, TypeSystemText word first →
    (parseDocument second).diagnostics = [] → StartsWith start second →
    start ∈ [.query, .mutation, .subscription, .fragment] → Joined first second source →
    Recovers word second source := by
  intro hall
  have hclean : (parseDocument tickSubscription).diagnostics = [] := by cbv
  have hstart : StartsWith .subscription tickSubscription :=
    ⟨[], ⟨.keyword .subscription, ⟨0, 12⟩, "subscription"⟩, _, by cbv, List.forall_mem_nil _, rfl⟩
  have hlist := (hall typeSystemText_dateText hclean hstart (by decide)
    (joined_feed valid_dateText tickSubscription)).definitions
  have hnone : (parseDocument (dateText ++ "\n" ++ tickSubscription)).document.definitions = [] := by cbv
  have hone : (parseDocument tickSubscription).document.definitions.length = 1 := by cbv
  have hlength := congrArg List.length hlist
  rw [hnone, List.length_map, List.length_map, hone] at hlength
  cases hlength

end GraphClient
