import GraphClient.Proofs.Document.Reading

/-! Definitions as pieces of text. In a document without mistakes a definition runs from its first
token to a closing brace; so its text is a piece of the document that reads as the same definition
wherever it is put, and pieces one behind the other read as a document of these definitions. -/

namespace GraphClient

/-- That a cursor is one that reading comes to from another one. -/
structure Cursor.Onward (c d : Cursor) : Prop where
  tokens : d.tokens <:+ c.tokens
  size : d.size = c.size
  diagnostics : c.diagnostics <+: d.diagnostics

/-- A cursor goes along with itself, and reading comes to nothing but what is behind its start. -/
def Coupling.onward (start : Cursor) : Coupling Eq where
  bound := 0
  rel c c' := c' = c ∧ start.Onward c
  max hm hn := by rw [hm, hn]
  current h _ := h.1 ▸ ⟨rfl, rfl, rfl, rfl⟩
  atEnd h _ := by rw [h.1]
  lastStop h := by rw [h.1]
  advance h _ := ⟨by rw [h.1], (List.tail_suffix _).trans h.2.tokens, h.2.size, h.2.diagnostics⟩
  report _ _ _ h hspan :=
    ⟨by rw [h.1, hspan.eq], h.2.tokens, h.2.size, h.2.diagnostics.trans (List.prefix_append _ _)⟩

namespace Cursor

variable {c d e : Cursor}

theorem Onward.refl (c : Cursor) : c.Onward c := ⟨List.suffix_rfl, rfl, List.prefix_rfl⟩

theorem Onward.trans (h : c.Onward d) (h' : d.Onward e) : c.Onward e :=
  ⟨h'.tokens.trans h.tokens, h'.size.trans h.size, h.diagnostics.trans h'.diagnostics⟩

theorem onward_rel (c : Cursor) : (Coupling.onward c).rel c c := ⟨rfl, .refl c⟩

/-- That all tokens from one cursor to another one are taken, the last of them a closing brace. -/
structure Closes (c d : Cursor) : Prop where
  size : d.size = c.size
  tokens : ∃ mid last, c.tokens = mid ++ last :: d.tokens ∧ last.kind = .mark .closeBrace ∧
    d.lastStop = last.span.stop

theorem Onward.closes (h : c.Onward d) (hcloses : d.Closes e) : c.Closes e := by
  obtain ⟨skipped, hskipped⟩ := h.tokens
  obtain ⟨mid, last, htokens, hlast⟩ := hcloses.tokens
  exact ⟨hcloses.size.trans h.size, skipped ++ mid,
    last, by rw [← hskipped, htokens, List.append_assoc], hlast⟩

theorem tokens_of_kind {kind : TokenKind} (h : c.kind = kind) (hkind : kind ≠ .finish) :
    ∃ rest, c.tokens = c.current :: rest := by
  obtain ⟨tokens, size, lastStop, diagnostics⟩ := c
  cases tokens with
  | nil => exact absurd h.symm hkind
  | cons t rest => exact ⟨rest, rfl⟩

theorem closes_of_expect (h : (c.expect (.mark .closeBrace)).diagnostics = []) :
    c.Closes (c.expect (.mark .closeBrace)) := by
  rw [expect] at h ⊢
  split at h
  · rename_i hat
    rw [if_pos hat]
    have hkind : c.kind = .mark .closeBrace := by simpa [at?] using hat
    obtain ⟨rest, htokens⟩ := tokens_of_kind hkind (by decide)
    refine ⟨rfl, [], c.current, ?_, hkind, rfl⟩
    rw [List.nil_append, advance, htokens]
    rfl
  · exact absurd (List.append_eq_nil_iff.1 h).2 (List.cons_ne_nil _ _)

end Cursor

namespace Parser

variable {c : Cursor} {start : Nat}

theorem openedSet_closes (h : (openedSet start c).result.2.diagnostics = []) :
    c.Closes (openedSet start c).result.2 := by
  rw [openedSet_result] at h ⊢
  dsimp only at h ⊢
  have hlist := (selections_agree c.onward_rel (Nat.zero_le _)).2.2
  split at h
  · exact absurd (List.append_eq_nil_iff.1 h).2 (List.cons_ne_nil _ _)
  · rename_i hempty
    rw [if_neg hempty]
    exact hlist.closes (Cursor.closes_of_expect h)

theorem selectionSet_closes {c₀ : Cursor} (hc : (Coupling.onward c₀).rel c c)
    (h : (selectionSet c).result.2.diagnostics = []) : c₀.Closes (selectionSet c).result.2 := by
  rw [selectionSet_result] at h ⊢
  exact (Coupling.expect hc (Nat.zero_le _) (.mark .openBrace)).2.closes (openedSet_closes h)

theorem operationBody_closes {c₀ : Cursor} {kind : OperationKind} {target : Option Name}
    (hc : (Coupling.onward c₀).rel c c) (h : (operationBody start kind target c).result.2.diagnostics = []) :
    c₀.Closes (operationBody start kind target c).result.2 := by
  rw [operationBody_result] at h ⊢
  have hlist := (variableDefinitions_agree hc (Nat.zero_le _)).2
  exact selectionSet_closes (directives_agree hlist (Nat.zero_le _)).2 h

theorem operation_closes {kind : OperationKind} (h : (operation start kind c).result.2.diagnostics = []) :
    c.Closes (operation start kind c).result.2 := by
  rw [operation_result] at h ⊢
  split at h
  · rename_i hnamed
    rw [if_pos hnamed]
    exact operationBody_closes (name_agree c.onward_rel (Nat.zero_le _)).2 h
  · rename_i hnamed
    rw [if_neg hnamed]
    exact operationBody_closes c.onward_rel h

theorem fragment_closes (h : (fragment start c).result.2.diagnostics = []) :
    c.Closes (fragment start c).result.2 := by
  rw [fragment_result] at h ⊢
  have hname := (name_agree c.onward_rel (Nat.zero_le _)).2
  have hon := Coupling.expect hname (Nat.zero_le _) (.keyword .on)
  have hcondition := (name_agree hon (Nat.zero_le _)).2
  exact selectionSet_closes (directives_agree hcondition (Nat.zero_le _)).2 h

theorem span_operation (start : Nat) (kind : OperationKind) (c : Cursor) :
    (operation start kind c).result.1.span = (operation start kind c).result.2.spanFrom start := by
  rw [operation_result]
  split <;> rfl

/-- What a definition read from a cursor is, and where reading it ends. -/
structure Ends (c : Cursor) (definition : Definition) (next : Cursor) : Prop where
  closes : c.advance.Closes next
  span : definition.span = next.spanFrom c.current.span.start

theorem worded_ends {word : Keyword} {definition : Definition} (hsome : (worded c word).1 = some definition)
    (h : (worded c word).2.diagnostics = []) : Ends c definition (worded c word).2 := by
  unfold worded at hsome h ⊢
  cases hkind : operationKind? word with
  | some kind =>
      rw [hkind] at hsome h
      cases hsome
      exact ⟨operation_closes h, span_operation ..⟩
  | none =>
      rw [hkind] at hsome h
      dsimp only at hsome h ⊢
      by_cases hword : word = .fragment
      · rw [if_pos hword] at hsome h ⊢
        cases hsome
        exact ⟨@fragment_closes c.advance c.current.span.start h, rfl⟩
      · rw [if_neg hword] at hsome
        split at hsome <;> cases hsome

/-- **A definition runs from its first token to a closing brace.** -/
theorem definitionOf_ends {kind : TokenKind} {definition : Definition}
    (hsome : (definitionOf c kind).1 = some definition) (h : (definitionOf c kind).2.diagnostics = []) :
    Ends c definition (definitionOf c kind).2 ∧ kind ≠ .invalid ∧ kind ≠ .finish := by
  fun_cases definitionOf c kind with
  | case1 =>
      cases hsome
      exact ⟨⟨openedSet_closes h, rfl⟩, by decide, by decide⟩
  | case2 => cases hsome
  | case3 => cases hsome
  | case4 word => exact ⟨worded_ends hsome h, TokenKind.noConfusion, TokenKind.noConfusion⟩
  | case5 =>
      rw [definitionOf] at hsome
      · cases hsome
      all_goals assumption

end Parser

/-- The tokens left with the end behind them. -/
def Cursor.stream (c : Cursor) : List Token := c.tokens ++ [Token.finish c.size]

/-- That two cursors stand before the same tokens at places that belong together, up to where
`rest` and `rest'` are left. -/
structure Cursor.Beside (place : Nat → Nat → Prop) (rest rest' : List Token) (c c' : Cursor) : Prop where
  seen : ∃ tokens tokens', c.stream = tokens ++ rest ∧ c'.stream = tokens' ++ rest' ∧
    List.Forall₂ (Token.Like place) tokens tokens'
  lastStop : place c.lastStop c'.lastStop
  diagnostics : List.Forall₂ (Diagnostic.Like place) c.diagnostics c'.diagnostics

namespace Cursor

variable {c c' : Cursor} {t : Token} {ts : List Token} {place : Nat → Nat → Prop} {rest rest' : List Token}

theorem length_stream (c : Cursor) : c.stream.length = c.left + 1 := by
  rw [stream, List.length_append]
  rfl

theorem stream_cases (h : c.stream = t :: ts) :
    c.current = t ∧ c.atEnd = ts.isEmpty ∧ c.advance.stream = if ts.isEmpty then [t] else ts := by
  obtain ⟨tokens, size, lastStop, diagnostics⟩ := c
  cases tokens with
  | nil =>
      cases h
      exact ⟨rfl, rfl, rfl⟩
  | cons u tokens =>
      cases h
      exact ⟨rfl, by simp [atEnd], by simp [stream, advance]⟩

/-- Where there are tokens left that agree, the first of them is the current one. -/
theorem Beside.exists_cons (h : c.Beside place rest rest' c') (hopen : rest.length ≤ c.left) :
    ∃ t t' ts ts', c.stream = t :: (ts ++ rest) ∧ c'.stream = t' :: (ts' ++ rest') ∧ t.Like place t' ∧
      List.Forall₂ (Token.Like place) ts ts' := by
  obtain ⟨tokens, tokens', hstream, hstream', hlike⟩ := h.seen
  cases hlike with
  | nil =>
      have hlength := c.length_stream
      rw [hstream, List.nil_append] at hlength
      omega
  | cons hfirst hlike => exact ⟨_, _, _, _, hstream, hstream', hfirst, hlike⟩

end Cursor

/-- Cursors before the same tokens go along with each other. The two texts end there or both go on. -/
def Coupling.beside {place : Nat → Nat → Prop} (hmax : ∀ {m m' n n'}, place m m' → place n n' →
    place (Nat.max m n) (Nat.max m' n')) {rest rest' : List Token} (hends : rest'.isEmpty = rest.isEmpty) :
    Coupling place where
  bound := rest.length
  rel := Cursor.Beside place rest rest'
  max := hmax
  current h hopen := by
    obtain ⟨t, t', ts, ts', hstream, hstream', ht, -⟩ := h.exists_cons hopen
    rw [(Cursor.stream_cases hstream).1, (Cursor.stream_cases hstream').1]
    exact ht
  atEnd h hopen := by
    obtain ⟨t, t', ts, ts', hstream, hstream', -, hlike⟩ := h.exists_cons hopen
    rw [(Cursor.stream_cases hstream).2.1, (Cursor.stream_cases hstream').2.1]
    cases hlike with
    | nil => exact hends
    | cons => rfl
  lastStop h := h.lastStop
  advance h hopen := by
    obtain ⟨t, t', ts, ts', hstream, hstream', ht, hlike⟩ := h.exists_cons hopen
    obtain ⟨hcurrent, -, hadvance⟩ := Cursor.stream_cases hstream
    obtain ⟨hcurrent', -, hadvance'⟩ := Cursor.stream_cases hstream'
    refine ⟨?_, ?_, h.diagnostics⟩
    · cases hlike with
      | cons hfirst hlike => exact ⟨_, _, hadvance, hadvance', .cons hfirst hlike⟩
      | nil =>
          rw [List.nil_append] at hadvance hadvance'
          rw [hends] at hadvance'
          cases hempty : rest.isEmpty with
          | false =>
              rw [hempty] at hadvance hadvance'
              exact ⟨[], [], hadvance, hadvance', .nil⟩
          | true =>
              -- at the end of the text the cursor stays where it is
              rw [hempty] at hadvance hadvance' hends
              rw [List.isEmpty_iff] at hempty hends
              exact ⟨[t], [t'], by rw [hadvance, hempty]; rfl, by rw [hadvance', hends]; rfl, .cons ht .nil⟩
    · dsimp only [Cursor.advance]
      rw [hcurrent, hcurrent']
      exact ht.span.stop
  report fault _ _ h hspan :=
    ⟨h.seen, h.lastStop, List.rel_append h.diagnostics (.cons ⟨rfl, hspan⟩ .nil)⟩

end GraphClient
