import GraphClient.Proofs.Document.Grammar
import GraphClient.Proofs.Document.Pieces

/-! Reading and the grammar. A step of the reader accepts a production if it takes just the tokens of
the production and gives the tree that these are written for, and reports a mistake where no such
tokens stand. What may come behind them is part of the statement, as a step looks one token ahead. -/

namespace GraphClient

/-- The kind of the first token, as a cursor in front of the tokens sees it. -/
def firstKind : List Token → TokenKind
  | [] => .finish
  | t :: _ => t.kind

@[simp] theorem firstKind_cons (t : Token) (ts : List Token) : firstKind (t :: ts) = t.kind := rfl

theorem Cursor.kind_of_tokens {c : Cursor} {tokens : List Token} (h : c.tokens = tokens) :
    c.kind = firstKind tokens := by
  subst h
  obtain ⟨tokens, size, lastStop, diagnostics⟩ := c
  cases tokens <;> rfl

/-- That the step that gives a value and leaves the cursor `next` accepts a production, as long as nothing but
what `follow` allows comes behind. -/
structure Accepts {α : Type} (P : List Token → α → Prop) (follow : TokenKind → Prop) (c : Cursor) (value : α)
    (next : Cursor) : Prop where
  clean : next.diagnostics = [] → c.diagnostics = []
  sound : next.diagnostics = [] → ∃ part, c.tokens = part ++ next.tokens ∧ P part value
  complete : c.diagnostics = [] → ∀ {part rest value'}, c.tokens = part ++ rest → P part value' →
    follow (firstKind rest) → value = value' ∧ next.tokens = rest ∧ next.diagnostics = []

/-- What may come behind a production that ends by itself. -/
def Anything (_ : TokenKind) : Prop := True

/-- A part of one production and a part of another one behind it. -/
inductive Followed {α β : Type} (P : List Token → α → Prop) (Q : List Token → β → Prop) :
    List Token → α × β → Prop
  | mk {part part' value value'} (h : P part value) (h' : Q part' value') :
      Followed P Q (part ++ part') (value, value')

/-- A token of a kind. -/
inductive OfKind (kind : TokenKind) : List Token → Token → Prop
  | mk {t} (h : t.kind = kind) : OfKind kind [t] t

theorem Followed.cons {β : Type} {Q : List Token → β → Prop} {t : Token} {kind : TokenKind} {part value}
    (h : t.kind = kind) (h' : Q part value) : Followed (OfKind kind) Q (t :: part) (t, value) :=
  Followed.mk (OfKind.mk h) h'

/-- A part of a production that a step may also find missing. -/
inductive Present {α : Type} (P : List Token → α → Prop) : List Token → Option α → Prop
  | mk {part value} (h : P part value) : Present P part (some value)

namespace Accepts

variable {α β : Type} {P : List Token → α → Prop} {Q : List Token → β → Prop}
  {follow follow' : TokenKind → Prop} {c d e : Cursor} {v : α} {w : β}

/-- One step behind the other accepts one production behind the other. -/
theorem followed (h : Accepts P follow c v d) (h' : Accepts Q follow' d w e)
    (hfollow : ∀ {part rest w'}, Q part w' → follow' (firstKind rest) → follow (firstKind (part ++ rest))) :
    Accepts (Followed P Q) follow' c (v, w) e where
  clean hclean := h.clean (h'.clean hclean)
  sound hclean := by
    obtain ⟨part', htokens', hpart'⟩ := h'.sound hclean
    obtain ⟨part, htokens, hpart⟩ := h.sound (h'.clean hclean)
    exact ⟨part ++ part', by rw [htokens, htokens', List.append_assoc], .mk hpart hpart'⟩
  complete hclean := by
    rintro _ rest _ htokens ⟨hpart, hpart'⟩ hrest
    rw [List.append_assoc] at htokens
    obtain ⟨rfl, htokens', hclean'⟩ := h.complete hclean htokens hpart (hfollow hpart' hrest)
    obtain ⟨rfl, htokens'', hclean''⟩ := h'.complete hclean' htokens' hpart' hrest
    exact ⟨rfl, htokens'', hclean''⟩

/-- A step accepts a production if it accepts another one that has the same parts here. -/
theorem of (h : Accepts P follow c v d) (hsound : ∀ {part}, P part v → Q part w)
    (hcomplete : ∀ {part rest w'}, c.tokens = part ++ rest → Q part w' → follow' (firstKind rest) →
      ∃ v', P part v' ∧ follow (firstKind rest) ∧ (v = v' → w = w')) :
    Accepts Q follow' c w d where
  clean := h.clean
  sound hclean := by
    obtain ⟨part, htokens, hpart⟩ := h.sound hclean
    exact ⟨part, htokens, hsound hpart⟩
  complete hclean := by
    intro part rest w' htokens hpart hrest
    obtain ⟨v', hpart', hrest', hvalue⟩ := hcomplete htokens hpart hrest
    obtain ⟨heq, hnext⟩ := h.complete hclean htokens hpart' hrest'
    exact ⟨hvalue heq, hnext⟩

/-- Less may come behind. -/
theorem mono (h : Accepts P follow c v d) (hfollow : ∀ kind, follow' kind → follow kind) :
    Accepts P follow' c v d :=
  h.of id fun _ hpart hrest => ⟨_, hpart, hfollow _ hrest, id⟩

/-- A step that reports a mistake accepts a production that has no part here. -/
theorem of_dirty (hdirty : d.diagnostics ≠ [])
    (hnone : ∀ {part rest w'}, c.tokens = part ++ rest → Q part w' → False) : Accepts Q follow' c w d where
  clean hclean := absurd hclean hdirty
  sound hclean := absurd hclean hdirty
  complete _ _ _ _ htokens hpart := (hnone htokens hpart).elim

/-- A step that takes nothing. -/
theorem of_nothing (hnothing : Q [] w)
    (hcomplete : ∀ {part rest w'}, c.tokens = part ++ rest → Q part w' → follow' (firstKind rest) →
      part = [] ∧ w = w') : Accepts Q follow' c w c where
  clean := id
  sound _ := ⟨[], rfl, hnothing⟩
  complete hclean _ _ _ htokens hpart hrest := by
    obtain ⟨rfl, hvalue⟩ := hcomplete htokens hpart hrest
    exact ⟨hvalue, htokens, hclean⟩

theorem some (h : Accepts P follow c v d) : Accepts (Present P) follow c (Option.some v) d :=
  h.of .mk fun _ hpart hrest => by
    obtain ⟨hpart⟩ := hpart
    exact ⟨_, hpart, hrest, congrArg Option.some⟩

end Accepts

namespace Cursor

variable {c : Cursor}

theorem report_dirty (c : Cursor) (fault : SyntaxFault) (span : Span) :
    (c.report fault span).diagnostics ≠ [] :=
  List.append_ne_nil_of_right_ne_nil _ (List.cons_ne_nil _ _)

theorem at?_of_kind {kind : TokenKind} (h : c.kind = kind) : c.at? kind = true := by
  rw [at?, h]
  exact beq_self_eq_true kind

theorem kind_of_at? {kind : TokenKind} (h : c.at? kind = true) : c.kind = kind := by
  simpa [at?] using h

theorem expect_eq_advance {kind : TokenKind} (h : (c.expect kind).diagnostics = []) :
    c.kind = kind ∧ c.expect kind = c.advance := by
  rw [expect] at h ⊢
  split at h
  · rename_i hat
    exact ⟨kind_of_at? hat, if_pos hat⟩
  · exact absurd h (report_dirty _ _ _)

theorem left_pos_of_not_stop {kind : TokenKind} (h : ¬(c.at? kind || c.atEnd) = true) : 0 < c.left :=
  left_pos_of_not_atEnd (by simp_all)

theorem tokens_advance {t : Token} {ts : List Token} (h : c.tokens = t :: ts) : c.advance.tokens = ts := by
  rw [advance, h, List.tail_cons]

/-- The current token is taken. -/
theorem accepts_advance {kind : TokenKind} (h : c.kind = kind) (hkind : kind ≠ .finish) :
    Accepts (OfKind kind) Anything c c.current c.advance := by
  obtain ⟨rest, htokens⟩ := tokens_of_kind h hkind
  have hadvance := tokens_advance htokens
  refine ⟨id, fun _ => ⟨[c.current], by rw [hadvance, htokens, List.singleton_append], .mk h⟩, ?_⟩
  rintro hclean _ rest' _ htokens' ⟨-⟩ -
  obtain ⟨hcurrent, hrest⟩ := List.cons.inj (htokens.symm.trans htokens')
  exact ⟨hcurrent, hadvance.trans hrest, hclean⟩

/-- A token that has to stand here is taken. -/
theorem accepts_expect (c : Cursor) (kind : TokenKind) (hkind : kind ≠ .finish) :
    Accepts (OfKind kind) Anything c c.current (c.expect kind) := by
  rw [expect]
  split
  · rename_i hat
    exact accepts_advance (kind_of_at? hat) hkind
  · rename_i hat
    refine .of_dirty (report_dirty _ _ _) ?_
    rintro _ rest _ htokens ⟨h⟩
    exact hat (at?_of_kind ((kind_of_tokens htokens).trans h))

end Cursor

/-- What stands before a closing mark. -/
theorem ManyTokens.firstKind {α : Type} {P : List Token → α → Prop} {starts : TokenKind → Prop}
    (hstarts : ∀ {part v}, P part v → ∃ t ts, part = t :: ts ∧ starts t.kind) {parts values}
    (h : ManyTokens P parts values) (rest : List Token) :
    (parts = [] ∧ values = []) ∨ starts (GraphClient.firstKind (parts ++ rest)) := by
  cases h with
  | nil => exact .inl ⟨rfl, rfl⟩
  | cons hfirst _ =>
      obtain ⟨t, ts, rfl, ht⟩ := hstarts hfirst
      exact .inr ht

/-- What may come behind directives. -/
structure BehindDirectives (kind : TokenKind) : Prop where
  atSign : kind ≠ .mark .atSign
  openParen : kind ≠ .mark .openParen

/-- What stands where directives may stand, in front of what comes behind them. -/
theorem firstKind_directives {marks : List Token} {directives : List Directive}
    (h : ManyTokens DirectiveTokens marks directives) {rest : List Token} {kind : TokenKind}
    (hat : .mark .atSign ≠ kind) (hrest : firstKind rest ≠ kind) : firstKind (marks ++ rest) ≠ kind := by
  rcases @ManyTokens.firstKind _ _ (· = .mark .atSign) DirectiveTokens.starts _ _ h rest with h | h
  · rwa [h.1, List.nil_append]
  · rwa [h]

namespace Parser

variable {c : Cursor}

/-- Parts that are read one behind the other, up to a closing mark. -/
theorem accepts_many {α β : Type} {item : Cursor → Option α × Cursor}
    {loop : Cursor → List α × Cursor} {bare : α → β}
    {P : List Token → β → Prop} {starts follow : TokenKind → Prop} {close : TokenKind} {n : Nat}
    (hloop : ∀ c, loop c = if c.at? close || c.atEnd then ([], c)
      else ((item c).1.toList ++ (loop (item c).2).1, (loop (item c).2).2))
    (hlt : ∀ c, 0 < c.left → (item c).2.left < c.left)
    (hstarts : ∀ {part v}, P part v → ∃ t ts, part = t :: ts ∧ starts t.kind)
    (hfollow : ∀ kind, starts kind → kind ≠ close ∧ follow kind) (hclose : follow close)
    (hitem : ∀ c, c.left ≤ n → Accepts (Present P) follow c ((item c).1.map bare) (item c).2)
    (hc : c.left ≤ n) :
    Accepts (ManyTokens P) (· = close) c ((loop c).1.map bare) (loop c).2 := by
  induction hn : c.left using Nat.strongRecOn generalizing c with
  | ind m ih =>
      rw [hloop c]
      split
      · rename_i hstop
        refine .of_nothing .nil fun htokens hparts hrest => ?_
        rcases ManyTokens.firstKind hstarts hparts _ with h | h
        · exact ⟨h.1, h.2.symm⟩
        · -- a part starts neither with the closing mark nor at the end
          rw [← Cursor.kind_of_tokens htokens] at h
          rw [Bool.or_eq_true] at hstop
          rcases hstop with hstop | hstop
          · exact absurd (Cursor.kind_of_at? hstop) (hfollow _ h).1
          · cases hparts with
            | nil => exact ⟨rfl, rfl⟩
            | cons hfirst _ =>
                obtain ⟨t, ts, rfl, -⟩ := hstarts hfirst
                rw [Cursor.atEnd, htokens] at hstop
                cases hstop
      · rename_i hstop
        have hless := hlt c (Cursor.left_pos_of_not_stop hstop)
        have hrest := ih _ (hn ▸ hless) (Nat.le_trans (Nat.le_of_lt hless) hc) rfl
        have hboth := (hitem c hc).followed hrest fun hparts hend => by
          rcases ManyTokens.firstKind hstarts hparts _ with h | h
          · rw [h.1, List.nil_append, hend]
            exact hclose
          · exact (hfollow _ h).2
        refine hboth.of ?_ ?_
        · intro part hpart
          generalize hvalue : (item c).1.map bare = value at hpart
          obtain ⟨⟨hfirst⟩, hrest⟩ := hpart
          obtain ⟨first, hsome, rfl⟩ := Option.map_eq_some_iff.1 hvalue
          rw [hsome]
          exact .cons hfirst hrest
        · rintro _ rest _ htokens hparts hend
          cases hparts with
          | nil =>
              rw [List.nil_append] at htokens
              rw [← Cursor.kind_of_tokens htokens] at hend
              rw [Cursor.at?_of_kind hend] at hstop
              exact absurd rfl hstop
          | cons hfirst hrest =>
              refine ⟨_, ⟨⟨hfirst⟩, hrest⟩, hend, fun heq => ?_⟩
              obtain ⟨hfirst, hrest⟩ := Prod.mk.inj heq
              obtain ⟨first, hsome, rfl⟩ := Option.map_eq_some_iff.1 hfirst
              rw [hsome, ← hrest]
              rfl

theorem accepts_name (c : Cursor) :
    Accepts NameTokens Anything c (name c).result.1.bare (name c).result.2 := by
  rw [name_result]
  split
  · rename_i hname
    refine (Cursor.accepts_advance rfl fun h => ?_).of ?_ ?_
    · rw [h] at hname
      cases hname
    · rintro _ ⟨-⟩
      exact .mk hname
    · rintro _ rest _ htokens ⟨hword⟩ -
      exact ⟨_, ⟨(Cursor.kind_of_tokens htokens).symm⟩, trivial, congrArg Token.name⟩
  · rename_i hname
    refine .of_dirty (Cursor.report_dirty _ _ _) ?_
    rintro _ rest _ htokens ⟨hword⟩
    exact hname ((Cursor.kind_of_tokens htokens).symm ▸ hword)

/-! ### Literals -/

theorem int?_text (t : Token) : LiteralText.int? t.text =
    if -2 ^ 63 ≤ t.whole ∧ t.whole < 2 ^ 63 then some t.whole else none := rfl

theorem literalOf_of_isName (hname : c.kind.isName = true) :
    ((literalOf c c.kind).1.bare, (literalOf c c.kind).2) =
      (Literal.ofName c.current.name c.kind, c.advance) := by
  have hnamed : (name c).result = (⟨c.current.text, c.current.span⟩, c.advance) := by
    rw [name_result, if_pos hname]
  cases hkind : c.kind with
  | name => simp [literalOf, TokenKind.isName, hnamed, Literal.ofName, Literal.bare, Name.bare, Token.name]
  | keyword word =>
      cases word <;>
        simp [literalOf, TokenKind.isName, hnamed, Literal.ofName, Literal.bare, Name.bare, Token.name]
  | _ =>
      rw [hkind] at hname
      cases hname

theorem literal_onward (c : Cursor) : c.Onward (literal c).result.2 :=
  (literal_agree c.onward_rel (Nat.zero_le _)).2.2

/-- A name, a colon and a value. -/
theorem accepts_binding (hliteral : ∀ d, d.left ≤ c.left →
      Accepts LiteralTokens Anything d (literal d).result.1.bare (literal d).result.2) :
    Accepts (Followed NameTokens (Followed (OfKind (.mark .colon)) LiteralTokens)) Anything c
      ((name c).result.1.bare, (name c).result.2.current,
        (literal ((name c).result.2.expect (.mark .colon))).result.1.bare)
      (literal ((name c).result.2.expect (.mark .colon))).result.2 :=
  (accepts_name c).followed ((Cursor.accepts_expect _ (.mark _) nofun).followed
    (hliteral _ (Nat.le_trans (Cursor.left_expect_le _ _) (name c).le)) fun _ _ => trivial) fun _ _ => trivial

theorem accepts_literalList (hliteral : ∀ d, d.left ≤ c.left →
      Accepts LiteralTokens Anything d (literal d).result.1.bare (literal d).result.2) :
    Accepts (ManyTokens LiteralTokens) (· = .mark .closeBracket) c
      (Literal.bareItems (literalList c).result.1) (literalList c).result.2 := by
  rw [Literal.bareItems_eq_map]
  exact @accepts_many _ _ _ (fun c => (some (literal c).result.1, (literal c).result.2))
    (fun c => (literalList c).result)
    _ _ _ _ _ _ literalList_result (fun c => (literal c).lt) LiteralTokens.starts
    (fun kind h => ⟨h, trivial⟩) trivial (fun d hd => (hliteral d hd).some) (Nat.le_refl _)

theorem accepts_literalFields (hliteral : ∀ d, d.left ≤ c.left →
      Accepts LiteralTokens Anything d (literal d).result.1.bare (literal d).result.2) :
    Accepts (ManyTokens FieldTokens) (· = .mark .closeBrace) c (Literal.bareFields (literalFields c).result.1)
      (literalFields c).result.2 := by
  rw [Literal.bareFields_eq_map]
  refine @accepts_many _ _ _ (fun c => (some ((name c).result.1,
      (literal ((name c).result.2.expect (.mark .colon))).result.1),
      (literal ((name c).result.2.expect (.mark .colon))).result.2)) (fun c => (literalFields c).result)
    _ _ _ _ _ _ literalFields_result ?_ FieldTokens.starts
      (fun kind h => ⟨TokenKind.ne_of_isName h, trivial⟩) trivial ?_
    (Nat.le_refl _)
  · intro d hpos
    have hle := Nat.le_trans (Cursor.left_expect_le (name d).next (.mark .colon)) (name d).le
    rcases Nat.eq_zero_or_pos ((name d).next.expect (.mark .colon)).left with hzero | hpos'
    · exact Nat.lt_of_le_of_lt (literal _).le (lt_of_eq_of_lt hzero hpos)
    · exact Nat.lt_of_lt_of_le ((literal _).lt hpos') hle
  · intro d hd
    refine ((accepts_binding fun e he => hliteral e (Nat.le_trans he hd)).of ?_ ?_).some
    · rintro _ ⟨hname, ⟨hcolon⟩, hvalue⟩
      exact .mk hname hcolon hvalue
    · rintro _ rest _ - ⟨hname, hcolon, hvalue⟩ -
      exact ⟨_, Followed.mk hname (.cons hcolon hvalue), trivial, fun heq => by cases heq; rfl⟩

/-- The parts of a list or an object and the mark that closes it. -/
theorem accepts_closed {α : Type} {P : List Token → α → Prop} {values : List α} {next : Cursor} {mark : Mark}
    (h : Accepts (ManyTokens P) (· = .mark mark) c values next) :
    Accepts (Followed (ManyTokens P) (OfKind (.mark mark))) Anything c (values, next.current)
      (next.expect (.mark mark)) :=
  h.followed (Cursor.accepts_expect _ (.mark _) nofun) fun hclosing _ => by
    obtain ⟨hclosing⟩ := hclosing
    exact hclosing

theorem accepts_variable (h : c.kind = .mark .dollar) :
    Accepts (Followed (OfKind (.mark .dollar)) NameTokens) Anything c (c.current,
      (name c.advance).result.1.bare) (name c.advance).result.2 :=
  (Cursor.accepts_advance h nofun).followed (accepts_name c.advance) fun _ _ => trivial

/-- A list behind its opening mark. -/
theorem accepts_listed (h : c.kind = .mark .openBracket) (hliteral : ∀ d, d.left ≤ c.advance.left →
      Accepts LiteralTokens Anything d (literal d).result.1.bare (literal d).result.2) :
    Accepts (Followed (OfKind (.mark .openBracket))
      (Followed (ManyTokens LiteralTokens) (OfKind (.mark .closeBracket))))
      Anything c (c.current, Literal.bareItems (literalList c.advance).result.1,
        (literalList c.advance).result.2.current)
      ((literalList c.advance).result.2.expect (.mark .closeBracket)) :=
  (Cursor.accepts_advance h nofun).followed (accepts_closed (accepts_literalList hliteral)) fun _ _ => trivial

/-- An object behind its opening mark. -/
theorem accepts_fielded (h : c.kind = .mark .openBrace) (hliteral : ∀ d, d.left ≤ c.advance.left →
      Accepts LiteralTokens Anything d (literal d).result.1.bare (literal d).result.2) :
    Accepts (Followed (OfKind (.mark .openBrace))
      (Followed (ManyTokens FieldTokens) (OfKind (.mark .closeBrace))))
      Anything c (c.current, Literal.bareFields (literalFields c.advance).result.1,
        (literalFields c.advance).result.2.current)
          ((literalFields c.advance).result.2.expect (.mark .closeBrace)) :=
  (Cursor.accepts_advance h nofun).followed (accepts_closed (accepts_literalFields hliteral)) fun _ _ =>
    trivial

/-- A value that is read without a mistake is written by the tokens it takes. -/
theorem literalOf_sound (hlist : c.kind = .mark .openBracket ∨ c.kind = .mark .openBrace → ∀ d,
      d.left ≤ c.advance.left →
        Accepts LiteralTokens Anything d (literal d).result.1.bare (literal d).result.2) :
    (literalOf c c.kind).2.diagnostics = [] →
      ∃ part, c.tokens = part ++ (literalOf c c.kind).2.tokens ∧
        LiteralTokens part (literalOf c c.kind).1.bare := by
  by_cases hname : c.kind.isName = true
  · obtain ⟨hvalue, hnext⟩ := Prod.mk.inj (literalOf_of_isName hname)
    rw [hvalue, hnext]
    intro hclean
    obtain ⟨_, htokens, ⟨-⟩⟩ :=
      (Cursor.accepts_advance rfl (TokenKind.ne_finish_of_isName hname)).sound hclean
    exact ⟨_, htokens, .name hname⟩
  generalize hkind : c.kind = kind at hname hlist ⊢
  have hone := fun hfinish : kind ≠ .finish => (Cursor.accepts_advance hkind hfinish).sound
  fun_cases literalOf c kind with
  | case1 =>
      intro hclean
      obtain ⟨_, htokens, ⟨hmark⟩, hname⟩ := (accepts_variable hkind).sound hclean
      exact ⟨_, htokens, .dollar hmark hname⟩
  | case2 =>
      rw [intLiteral_result, int?_text]
      by_cases hrange : -2 ^ 63 ≤ c.current.whole ∧ c.current.whole < 2 ^ 63
      · rw [if_pos hrange]
        intro hclean
        obtain ⟨_, htokens, ⟨hint⟩⟩ := hone (by decide) hclean
        exact ⟨_, htokens, .int hint hrange.1 hrange.2⟩
      · rw [if_neg hrange]
        exact fun hclean => absurd hclean (Cursor.report_dirty _ _ _)
  | case3 =>
      intro hclean
      obtain ⟨_, htokens, ⟨h⟩⟩ := hone (by decide) hclean
      exact ⟨_, htokens, .float h⟩
  | case4 =>
      intro hclean
      obtain ⟨_, htokens, ⟨h⟩⟩ := hone (by decide) hclean
      exact ⟨_, htokens, .string h⟩
  | case5 =>
      intro hclean
      obtain ⟨_, htokens, ⟨h⟩⟩ := hone (by decide) hclean
      exact ⟨_, htokens, .blockString h⟩
  | case9 =>
      intro hclean
      obtain ⟨_, htokens, ⟨hopening⟩, hitems, ⟨hclosing⟩⟩ :=
        (accepts_listed hkind (hlist (.inl rfl))).sound hclean
      exact ⟨_, htokens, .list hopening hitems hclosing⟩
  | case10 =>
      intro hclean
      obtain ⟨_, htokens, ⟨hopening⟩, hfields, ⟨hclosing⟩⟩ :=
        (accepts_fielded hkind (hlist (.inr rfl))).sound hclean
      exact ⟨_, htokens, .object hopening hfields hclosing⟩
  | case12 => exact fun hclean => absurd hclean (Cursor.report_dirty _ _ _)
  | case6 => exact absurd rfl hname
  | case7 => exact absurd rfl hname
  | case8 => exact absurd rfl hname
  | case11 _ _ _ _ _ _ _ _ _ _ _ h => exact absurd h hname

/-- A value that is written is read. -/
theorem literalOf_complete (hlist : c.kind = .mark .openBracket ∨ c.kind = .mark .openBrace → ∀ d,
      d.left ≤ c.advance.left →
        Accepts LiteralTokens Anything d (literal d).result.1.bare (literal d).result.2)
    (hclean : c.diagnostics = []) {part rest : List Token} {value : Literal}
    (htokens : c.tokens = part ++ rest) (hpart : LiteralTokens part value) :
    (literalOf c c.kind).1.bare = value ∧
      (literalOf c c.kind).2.tokens = rest ∧ (literalOf c c.kind).2.diagnostics = [] := by
  have hkind := Cursor.kind_of_tokens htokens
  cases hpart with
  | dollar hmark hname =>
      have hdollar := hkind.trans hmark
      rw [hdollar]
      obtain ⟨heq, hnext⟩ := (accepts_variable hdollar).complete hclean htokens (.cons hmark hname) trivial
      exact ⟨congrArg Literal.variable (Prod.mk.inj heq).2, hnext⟩
  | int h hleast hmost =>
      rw [hkind.trans h]
      obtain ⟨rfl, hnext⟩ :=
        (Cursor.accepts_advance (hkind.trans h) (by decide)).complete hclean htokens ⟨h⟩ trivial
      rw [literalOf, intLiteral_result, int?_text, if_pos ⟨hleast, hmost⟩]
      exact ⟨rfl, hnext⟩
  | float h =>
      rw [hkind.trans h]
      obtain ⟨rfl, hnext⟩ :=
        (Cursor.accepts_advance (hkind.trans h) (by decide)).complete hclean htokens ⟨h⟩ trivial
      exact ⟨rfl, hnext⟩
  | string h =>
      rw [hkind.trans h]
      obtain ⟨rfl, hnext⟩ :=
        (Cursor.accepts_advance (hkind.trans h) (by decide)).complete hclean htokens ⟨h⟩ trivial
      exact ⟨rfl, hnext⟩
  | blockString h =>
      rw [hkind.trans h]
      obtain ⟨rfl, hnext⟩ :=
        (Cursor.accepts_advance (hkind.trans h) (by decide)).complete hclean htokens ⟨h⟩ trivial
      exact ⟨rfl, hnext⟩
  | name h =>
      obtain ⟨rfl, hnext⟩ :=
        (Cursor.accepts_advance hkind (TokenKind.ne_finish_of_isName h)).complete hclean htokens
        ⟨rfl⟩ trivial
      obtain ⟨hvalue, hcursor⟩ := Prod.mk.inj (literalOf_of_isName h)
      rw [hvalue, hcursor]
      exact ⟨rfl, hnext⟩
  | list hopening hitems hclosing =>
      have hbracket := hkind.trans hopening
      rw [hbracket]
      obtain ⟨heq, hnext⟩ := (accepts_listed hbracket (hlist (.inl hbracket))).complete hclean htokens
        (.cons hopening (.mk hitems (.mk hclosing))) trivial
      exact ⟨congrArg (Literal.list · .none) (Prod.mk.inj (Prod.mk.inj heq).2).1, hnext⟩
  | object hopening hfields hclosing =>
      have hbrace := hkind.trans hopening
      rw [hbrace]
      obtain ⟨heq, hnext⟩ := (accepts_fielded hbrace (hlist (.inr hbrace))).complete hclean htokens
        (.cons hopening (.mk hfields (.mk hclosing))) trivial
      exact ⟨congrArg (Literal.object · .none) (Prod.mk.inj (Prod.mk.inj heq).2).1, hnext⟩

theorem accepts_literal (c : Cursor) :
    Accepts LiteralTokens Anything c (literal c).result.1.bare (literal c).result.2 := by
  induction hn : c.left using Nat.strongRecOn generalizing c with
  | ind n ih =>
      -- what a mark opens stands behind it, where fewer tokens are left
      have hlist : c.kind = .mark .openBracket ∨ c.kind = .mark .openBrace → ∀ d, d.left ≤ c.advance.left →
          Accepts LiteralTokens Anything d (literal d).result.1.bare (literal d).result.2 := fun h d hd =>
        have hpos : 0 < c.left := h.elim (Cursor.left_pos_of_kind · nofun) (Cursor.left_pos_of_kind · nofun)
        ih _ (hn ▸ Nat.lt_of_le_of_lt hd (Cursor.left_advance_lt hpos)) d rfl
      refine ⟨(literal_onward c).clean, ?_, ?_⟩
      · rw [literal_result]
        exact literalOf_sound hlist
      · intro hclean part rest value htokens hpart _
        rw [literal_result]
        exact literalOf_complete hlist hclean htokens hpart

/-! ### Types, arguments and directives -/

theorem accepts_innerType (htype : ∀ d, d.left < c.left →
      Accepts TypeTokens (· ≠ .mark .bang) d (typeExpr d).result.1.bare (typeExpr d).result.2) :
    Accepts InnerTokens Anything c (innerType c).1.bare (innerType c).2 := by
  unfold innerType
  split
  · rename_i hat
    have hkind := Cursor.kind_of_at? hat
    have hitem := htype _ (Cursor.left_advance_lt (Cursor.left_pos_of_kind hkind nofun))
    have hclosed := hitem.followed (Cursor.accepts_expect _ (.mark .closeBracket) nofun) (by
      rintro _ rest _ ⟨hclosing⟩ - hbang
      cases hclosing.symm.trans hbang)
    refine ((Cursor.accepts_advance hkind nofun).followed hclosed fun _ _ => trivial).of ?_ ?_
    · rintro _ ⟨⟨hopening⟩, hitem, ⟨hclosing⟩⟩
      exact .list hopening hitem hclosing
    · rintro _ rest _ htokens (⟨⟨hword⟩⟩ | ⟨hopening, hitem, hclosing⟩) -
      · exact absurd ((Cursor.kind_of_tokens htokens).symm.trans hkind) (TokenKind.ne_of_isName hword)
      · exact ⟨_, .cons hopening (.mk hitem (.mk hclosing)), trivial, fun heq => by cases heq; rfl⟩
  · rename_i hat
    refine (accepts_name c).of .named ?_
    rintro _ rest _ htokens (hname | ⟨hopening, hitem, hclosing⟩) -
    · exact ⟨_, hname, trivial, congrArg TypeExpr.named⟩
    · exact absurd (Cursor.at?_of_kind ((Cursor.kind_of_tokens htokens).trans hopening)) hat

theorem accepts_typeExpr (c : Cursor) :
    Accepts TypeTokens (· ≠ .mark .bang) c (typeExpr c).result.1.bare (typeExpr c).result.2 := by
  induction hn : c.left using Nat.strongRecOn generalizing c with
  | ind n ih =>
      have hinner := accepts_innerType fun d (hd : d.left < c.left) => ih _ (hn ▸ hd) d rfl
      rw [typeExpr_result]
      dsimp only
      by_cases hat : (innerType c).2.at? (.mark .bang) = true
      · rw [if_pos hat]
        have hkind := Cursor.kind_of_at? hat
        have hbang := hinner.followed (Cursor.accepts_advance hkind nofun) fun _ _ => trivial
        refine ⟨hbang.clean, fun hclean => ?_, fun hclean => ?_⟩
        · obtain ⟨_, htokens, hinner, ⟨hmark⟩⟩ := hbang.sound hclean
          exact ⟨_, htokens, .bang hinner hmark⟩
        · rintro _ rest _ htokens (h | ⟨h, hmark⟩) hrest
          · -- the type ends before a bang, which may not come behind it
            obtain ⟨-, hnext, -⟩ := hinner.complete hclean htokens h trivial
            exact absurd ((Cursor.kind_of_tokens hnext).symm.trans hkind) hrest
          · obtain ⟨heq, hnext⟩ := hbang.complete hclean htokens (.mk h (.mk hmark)) trivial
            exact ⟨congrArg (TypeExpr.nonNull · .none) (Prod.mk.inj heq).1, hnext⟩
      · rw [if_neg hat]
        refine ⟨hinner.clean, fun hclean => ?_, fun hclean => ?_⟩
        · obtain ⟨_, htokens, hinner⟩ := hinner.sound hclean
          exact ⟨_, htokens, .plain hinner⟩
        · rintro _ rest _ htokens (h | ⟨h, hmark⟩) hrest
          · exact hinner.complete hclean htokens h trivial
          · rw [List.append_assoc] at htokens
            obtain ⟨-, hnext, -⟩ := hinner.complete hclean htokens h trivial
            exact absurd (Cursor.at?_of_kind ((Cursor.kind_of_tokens hnext).trans hmark)) hat

/-- Parts in parentheses, if there are any. -/
theorem accepts_paren {α β : Type} {P : List Token → β → Prop} {bare : α → β} {list r : List α × Cursor}
    (hlist : Accepts (ManyTokens P) (· = .mark .closeParen) c.advance (list.1.map bare) list.2)
    (hr : r = if c.at? (.mark .openParen) then (list.1, list.2.expect (.mark .closeParen)) else ([], c)) :
    Accepts (ParenTokens P) (· ≠ .mark .openParen) c (r.1.map bare) r.2 := by
  rw [hr]
  split
  · rename_i hat
    have hkind := Cursor.kind_of_at? hat
    refine ((Cursor.accepts_advance hkind nofun).followed (accepts_closed hlist) fun _ _ => trivial).of ?_ ?_
    · rintro _ ⟨⟨hopening⟩, hparts, ⟨hclosing⟩⟩
      exact .some hopening hparts hclosing
    · rintro _ rest _ htokens (- | ⟨hopening, hparts, hclosing⟩) hrest
      · exact absurd ((Cursor.kind_of_tokens htokens).symm.trans hkind) hrest
      · exact ⟨_, .cons hopening (.mk hparts (.mk hclosing)), trivial, fun heq => by cases heq; rfl⟩
  · rename_i hat
    refine .of_nothing .none ?_
    rintro _ rest _ htokens (- | ⟨hopening, -, -⟩) -
    · exact ⟨rfl, rfl⟩
    · exact absurd (Cursor.at?_of_kind ((Cursor.kind_of_tokens htokens).trans hopening)) hat

/-- The argument at a cursor, or none where no name stands. -/
def argumentOf (c : Cursor) : Option Argument × Cursor :=
  if c.kind.isName then
    let target := (name c).result
    let value := (literal (target.2.expect (.mark .colon))).result
    (some ⟨target.1, value.1, value.2.spanFrom c.current.span.start⟩, value.2)
  else (none, (c.missing .argumentName).advance)

theorem accepts_argumentList (c : Cursor) : Accepts (ManyTokens ArgumentTokens) (· = .mark .closeParen) c
    ((argumentList c).result.1.map Argument.bare) (argumentList c).result.2 := by
  refine @accepts_many _ _ _ argumentOf (fun c => (argumentList c).result) _ _ _ _ _ _ ?_ ?_
    ArgumentTokens.starts
    (fun kind h => ⟨TokenKind.ne_of_isName h, trivial⟩) trivial ?_ (Nat.le_refl _)
  · intro d
    rw [argumentList_result]
    by_cases hname : d.kind.isName = true
    · rw [if_pos hname, show argumentOf d = (some _, _) from if_pos hname]
      rfl
    · rw [if_neg hname, show argumentOf d = (none, _) from if_neg hname]
      rfl
  · intro d hpos
    unfold argumentOf
    split
    · rename_i hname
      exact Nat.lt_of_le_of_lt (Nat.le_trans (literal _).le (Cursor.left_expect_le _ _)) (name_next_lt hname)
    · exact Cursor.left_missing_advance_lt _ hpos
  · intro d _
    unfold argumentOf
    split
    · refine ((accepts_binding fun e _ => accepts_literal e).of ?_ ?_).some
      · rintro _ ⟨hname, ⟨hcolon⟩, hvalue⟩
        exact .mk hname hcolon hvalue
      · rintro _ rest _ - ⟨hname, hcolon, hvalue⟩ -
        exact ⟨_, Followed.mk hname (.cons hcolon hvalue), trivial, fun heq => by cases heq; rfl⟩
    · rename_i hname
      refine .of_dirty (Cursor.report_dirty _ _ _) ?_
      rintro _ rest _ htokens ⟨h⟩
      obtain ⟨t, ts, rfl, hword⟩ := h.starts
      exact hname ((Cursor.kind_of_tokens htokens).symm ▸ hword)

theorem accepts_arguments (c : Cursor) : Accepts (ParenTokens ArgumentTokens) (· ≠ .mark .openParen) c
    ((arguments c).result.1.map Argument.bare) (arguments c).result.2 :=
  accepts_paren (accepts_argumentList c.advance) (arguments_result c)

theorem accepts_directives (c : Cursor) : Accepts (ManyTokens DirectiveTokens) BehindDirectives c
    ((directives c).result.1.map Directive.bare) (directives c).result.2 := by
  induction hn : c.left using Nat.strongRecOn generalizing c with
  | ind n ih =>
      rw [directives_result]
      split
      · rename_i hat
        have hkind := Cursor.kind_of_at? hat
        have hlt : (arguments (name c.advance).result.2).result.2.left < c.left :=
          Nat.lt_of_le_of_lt (Nat.le_trans (arguments _).le (name _).le)
            (Cursor.left_advance_lt (Cursor.left_pos_of_kind hkind nofun))
        have hfirst := (Cursor.accepts_advance hkind nofun).followed ((accepts_name c.advance).followed
          (accepts_arguments _) fun _ _ => trivial) fun _ _ => trivial
        have hrest := ih _ (hn ▸ hlt) (arguments (name c.advance).result.2).result.2 rfl
        refine (hfirst.followed hrest ?_).of ?_ ?_
        · exact fun hmarks hrest => firstKind_directives hmarks nofun hrest.openParen
        · rintro _ ⟨⟨⟨hmark⟩, hname, harguments⟩, hrest⟩
          have hfirst := DirectiveTokens.mk hmark hname harguments
          exact .cons hfirst hrest
        · rintro _ rest _ htokens (- | ⟨⟨hmark, hname, harguments⟩, hmarks⟩) hrest
          · exact absurd ((Cursor.kind_of_tokens htokens).symm.trans hkind) hrest.atSign
          · exact ⟨_, .mk (.cons hmark (.mk hname harguments)) hmarks, hrest, fun heq => by cases heq; rfl⟩
      · rename_i hat
        refine .of_nothing .nil ?_
        rintro _ rest _ htokens (- | ⟨⟨hmark, -, -⟩, -⟩) -
        · exact ⟨rfl, rfl⟩
        · exact absurd (Cursor.at?_of_kind ((Cursor.kind_of_tokens htokens).trans hmark)) hat

end Parser

end GraphClient
