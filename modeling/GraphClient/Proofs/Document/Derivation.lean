import GraphClient.Proofs.Document.Acceptance

/-! What a document is read as. The selections and definitions of a document accept their
productions, and so a text is read without mistakes just if the grammar derives its tokens, as the
tree that these are written for. -/

namespace GraphClient

/-- What may come behind a selection. -/
structure BehindSelection (kind : TokenKind) : Prop extends BehindDirectives kind where
  colon : kind ≠ .mark .colon
  openBrace : kind ≠ .mark .openBrace

theorem BehindSelection.of_isName {kind : TokenKind} (h : kind.isName = true) : BehindSelection kind :=
  ⟨⟨TokenKind.ne_of_isName h, TokenKind.ne_of_isName h⟩, TokenKind.ne_of_isName h, TokenKind.ne_of_isName h⟩

theorem KeyedTokens.starts {part : List Token} {keyed : Option Name × Name} (h : KeyedTokens part keyed) :
    ∃ t ts, part = t :: ts ∧ t.kind.isName = true := by
  obtain ⟨⟨hword⟩⟩ | ⟨⟨hword⟩, -, -⟩ := h
  · exact ⟨_, _, rfl, hword⟩
  · exact ⟨_, _, rfl, hword⟩

theorem SelectionTokens.starts {part : List Token} {selection : Selection}
    (h : SelectionTokens part selection) :
    ∃ t ts, part = t :: ts ∧ (t.kind = .mark .spread ∨ t.kind.isName = true) := by
  cases h with
  | field hkeyed =>
      obtain ⟨t, ts, rfl, hword⟩ := hkeyed.starts
      exact ⟨_, _, rfl, .inr hword⟩
  | _ => exact ⟨_, _, rfl, .inl ‹_›⟩

theorem VariableTokens.starts {part : List Token} {definition : VariableDefinition}
    (h : VariableTokens part definition) :
    ∃ t ts, part = t :: ts ∧ t.kind = .mark .dollar := by
  obtain ⟨hmark, -, -, -, -, -⟩ := h
  exact ⟨_, _, rfl, hmark⟩

section

variable {parts : List Token} {set : SelectionSet}

theorem firstKind_set (h : SetTokens parts set) (rest : List Token) :
    firstKind (parts ++ rest) = .mark .openBrace := by
  obtain ⟨t, ts, rfl, ht⟩ := h.starts
  exact ht

/-- What stands where directives and a selection set have to stand. -/
theorem firstKind_directives_set {marks : List Token} {directives : List Directive}
    (hmarks : ManyTokens DirectiveTokens marks directives) (hset : SetTokens parts set) (rest : List Token) :
    firstKind (marks ++ parts ++ rest) = .mark .atSign ∨ firstKind (marks ++ parts ++ rest) =
      .mark .openBrace := by
  rw [List.append_assoc]
  rcases @ManyTokens.firstKind _ _ (· = .mark .atSign) DirectiveTokens.starts _ _ hmarks
    (parts ++ rest) with h | h
  · rw [h.1, List.nil_append]
    exact .inr (firstKind_set hset rest)
  · exact .inl h

theorem firstKind_set? {set : Option SelectionSet} (h : MaybeTokens SetTokens parts set) {rest : List Token}
    {kind : TokenKind} (hbrace : .mark .openBrace ≠ kind) (hrest : firstKind rest ≠ kind) :
    firstKind (parts ++ rest) ≠ kind := by
  cases h with
  | none => exact hrest
  | some h => rwa [firstKind_set h rest]

theorem firstKind_paren {α : Type} {P : List Token → α → Prop} {parens : List Token} {values : List α}
    (h : ParenTokens P parens values) {rest : List Token} {kind : TokenKind}
    (hparen : .mark .openParen ≠ kind)
    (hrest : firstKind rest ≠ kind) : firstKind (parens ++ rest) ≠ kind := by
  cases h with
  | none => exact hrest
  | some hopening =>
      rwa [List.cons_append, firstKind_cons, hopening]

end

theorem BehindDirectives.set {parts rest : List Token} {set : SelectionSet} (h : SetTokens parts set) :
    BehindDirectives (firstKind (parts ++ rest)) := by
  rw [firstKind_set h rest]
  exact ⟨nofun, nofun⟩

namespace Parser

variable {c : Cursor}

/-! ### Selections -/

/-- A name and what is read behind it as the name of a field with a key. -/
theorem accepts_keyedName (c : Cursor) : Accepts KeyedTokens (· ≠ .mark .colon) c
    (((keyedName (name c).result.1 (name c).result.2).result.1.1.map Name.bare),
      (keyedName (name c).result.1 (name c).result.2).result.1.2.bare)
    (keyedName (name c).result.1 (name c).result.2).result.2 := by
  have hfirst := accepts_name c
  rw [keyedName_result]
  split
  · rename_i hat
    have hkind := Cursor.kind_of_at? hat
    have hboth :=
      hfirst.followed ((Cursor.accepts_advance hkind nofun).followed (accepts_name _) fun _ _ => trivial)
      fun _ _ => trivial
    refine ⟨hboth.clean, fun hclean => ?_, fun hclean => ?_⟩
    · obtain ⟨_, htokens, hkey, ⟨hcolon⟩, hname⟩ := hboth.sound hclean
      exact ⟨_, htokens, .keyed hkey hcolon hname⟩
    · rintro _ rest _ htokens (hname | ⟨hkey, hcolon, hname⟩) hrest
      · obtain ⟨-, hnext, -⟩ := hfirst.complete hclean htokens hname trivial
        exact absurd ((Cursor.kind_of_tokens hnext).symm.trans hkind) hrest
      · obtain ⟨heq, hnext⟩ := hboth.complete hclean htokens (.mk hkey (.cons hcolon hname)) trivial
        cases heq
        exact ⟨rfl, hnext⟩
  · rename_i hat
    refine ⟨hfirst.clean, fun hclean => ?_, fun hclean => ?_⟩
    · obtain ⟨_, htokens, hname⟩ := hfirst.sound hclean
      exact ⟨_, htokens, .plain hname⟩
    · rintro _ rest _ htokens (hname | ⟨hkey, hcolon, hname⟩) -
      · obtain ⟨heq, hnext⟩ := hfirst.complete hclean htokens hname trivial
        exact ⟨congrArg (Prod.mk _) heq, hnext⟩
      · rw [List.append_assoc] at htokens
        obtain ⟨-, hnext, -⟩ := hfirst.complete hclean htokens hkey trivial
        exact absurd (Cursor.at?_of_kind ((Cursor.kind_of_tokens hnext).trans hcolon)) hat

/-- The selection set at a cursor, if one starts there. -/
def setOf? (c : Cursor) : Option SelectionSet × Cursor :=
  if c.at? (.mark .openBrace) then (some (selectionSet c).result.1, (selectionSet c).result.2) else (none, c)

/-- That selection sets are accepted at a cursor. -/
def AcceptsSet (c : Cursor) : Prop :=
  Accepts SetTokens Anything c (selectionSet c).result.1.bare (selectionSet c).result.2

theorem accepts_setOf? (hset : AcceptsSet c) : Accepts (MaybeTokens SetTokens) (· ≠ .mark .openBrace) c
    (SelectionSet.bare? (setOf? c).1) (setOf? c).2 := by
  unfold setOf?
  split
  · rename_i hat
    refine hset.of .some ?_
    rintro _ rest _ htokens (- | hset) hrest
    · exact absurd ((Cursor.kind_of_tokens htokens).symm.trans (Cursor.kind_of_at? hat)) hrest
    · exact ⟨_, hset, trivial, congrArg some⟩
  · rename_i hat
    refine .of_nothing .none ?_
    rintro _ rest _ htokens (- | hset) -
    · exact ⟨rfl, rfl⟩
    · exact absurd (Cursor.at?_of_kind ((Cursor.kind_of_tokens htokens).trans (firstKind_set hset rest))) hat

theorem fieldOf_eq (c : Cursor) :
    let target := (keyedName (name c).result.1 (name c).result.2).result
    let list := (arguments target.2).result
    let marks := (directives list.2).result
    let set := setOf? marks.2
    ((fieldOf c).1.bare, (fieldOf c).2) =
      (.field (target.1.1.map Name.bare) target.1.2.bare (list.1.map Argument.bare)
        (marks.1.map Directive.bare)
        (SelectionSet.bare? set.1) .none, set.2) := by
  unfold fieldOf setOf?
  dsimp only
  split <;> rfl

theorem accepts_fieldOf (hsets : ∀ d, d.left < c.left → AcceptsSet d) (hname : c.kind.isName = true) :
    Accepts SelectionTokens BehindSelection c (fieldOf c).1.bare (fieldOf c).2 := by
  obtain ⟨hvalue, hnext⟩ := Prod.mk.inj (fieldOf_eq c)
  rw [hvalue, hnext]
  have hlt :
      (directives
        (arguments (keyedName (name c).result.1 (name c).result.2).result.2).result.2).result.2.left <
      c.left :=
    Nat.lt_of_le_of_lt (Nat.le_trans (directives _).le (Nat.le_trans (arguments _).le (keyedName _ _).le))
      (name_next_lt hname)
  have hset := (accepts_setOf? (hsets _ hlt)).mono fun _ (h : BehindSelection _) => h.openBrace
  have hmarks := (accepts_directives _).followed hset fun hset hrest =>
    ⟨firstKind_set? hset nofun hrest.atSign, firstKind_set? hset nofun hrest.openParen⟩
  have harguments := (accepts_arguments _).followed hmarks fun hpart hrest => by
    obtain ⟨hmarks, hset⟩ := hpart
    rw [List.append_assoc]
    exact firstKind_directives hmarks nofun (firstKind_set? hset nofun hrest.openParen)
  have hkeyed := (accepts_keyedName c).followed harguments fun hpart hrest => by
    obtain ⟨harguments, hmarks, hset⟩ := hpart
    rw [List.append_assoc, List.append_assoc]
    exact firstKind_paren harguments nofun
      (firstKind_directives hmarks nofun (firstKind_set? hset nofun hrest.colon))
  refine hkeyed.of ?_ ?_
  · rintro _ ⟨hkeyed, harguments, hmarks, hset⟩
    exact .field hkeyed harguments hmarks hset
  · rintro _ rest _ htokens hpart hrest
    cases hpart with
    | field hkeyed harguments hmarks hset =>
        exact ⟨_, .mk hkeyed (.mk harguments (.mk hmarks hset)), hrest, fun heq => by cases heq; rfl⟩
    | _ =>
        have hkind := (Cursor.kind_of_tokens htokens).trans ‹_›
        rw [hkind] at hname
        cases hname

theorem accepts_otherName (hon : c.kind ≠ .keyword .on) :
    Accepts OtherNameTokens Anything c (name c).result.1.bare (name c).result.2 := by
  refine ⟨(accepts_name c).clean, fun hclean => ?_, fun hclean => ?_⟩
  · obtain ⟨_, htokens, hname⟩ := (accepts_name c).sound hclean
    generalize (name c).result.1.bare = value at hname
    obtain ⟨hword⟩ := hname
    exact ⟨_, htokens, .mk hword fun h => hon ((Cursor.kind_of_tokens htokens).trans h)⟩
  · rintro _ rest _ htokens ⟨hword, -⟩ -
    exact (accepts_name c).complete hclean htokens ⟨hword⟩ trivial

/-- Directives and a selection set. -/
theorem accepts_directives_set (hset : AcceptsSet (directives c).result.2) :
    Accepts (Followed (ManyTokens DirectiveTokens) SetTokens) Anything c
      ((directives c).result.1.map Directive.bare, (selectionSet (directives c).result.2).result.1.bare)
      (selectionSet (directives c).result.2).result.2 :=
  (accepts_directives c).followed hset fun hset _ => .set hset

/-- What stands behind dots tells which of the three forms they open. -/
theorem dots_cases (hkind : c.kind = .mark .spread) {part rest : List Token} {v : Selection}
    (htokens : c.tokens = part ++ rest) (hpart : SelectionTokens part v) :
    (c.advance.kind = .keyword .on ∧ ∃ w, Followed (OfKind (.mark .spread)) (Followed (OfKind (.keyword .on))
      (Followed NameTokens (Followed (ManyTokens DirectiveTokens) SetTokens))) part w ∧
        v = .inline (some w.2.2.1) w.2.2.2.1 w.2.2.2.2 .none) ∨
    ((c.advance.kind = .mark .atSign ∨ c.advance.kind = .mark .openBrace) ∧
      ∃ w, Followed (OfKind (.mark .spread))
      (Followed (ManyTokens DirectiveTokens) SetTokens) part w ∧ v = .inline none w.2.1 w.2.2 .none) ∨
    (c.advance.kind.isName = true ∧ c.advance.kind ≠ .keyword .on ∧ ∃ w, Followed (OfKind (.mark .spread))
      (Followed OtherNameTokens (ManyTokens DirectiveTokens)) part w ∧ v = .spread w.2.1 w.2.2 .none) := by
  cases hpart with
  | inlineOn hdots hon hname hmarks hset =>
      have hnext := Cursor.kind_of_tokens (Cursor.tokens_advance htokens)
      exact .inl ⟨hnext.trans hon, _, .cons hdots (.cons hon (.mk hname (.mk hmarks hset))), rfl⟩
  | inline hdots hmarks hset =>
      have hnext := Cursor.kind_of_tokens (Cursor.tokens_advance htokens)
      exact .inr (.inl ⟨(firstKind_directives_set hmarks hset rest).imp hnext.trans hnext.trans, _,
        .cons hdots (.mk hmarks hset), rfl⟩)
  | spread hdots hname hmarks =>
      obtain ⟨hword, hother⟩ := hname
      have hnext := Cursor.kind_of_tokens (Cursor.tokens_advance htokens)
      exact .inr (.inr ⟨hnext ▸ hword, hnext ▸ hother, _, .cons hdots (.mk (.mk hword hother) hmarks), rfl⟩)
  | field hkeyed =>
      obtain ⟨t, ts, rfl, hword⟩ := hkeyed.starts
      exact absurd ((Cursor.kind_of_tokens htokens).symm.trans hkind) (TokenKind.ne_of_isName hword)

theorem accepts_spreadOf (hsets : ∀ d, d.left < c.left → AcceptsSet d)
    (hkind : c.kind = .mark .spread) (start : Nat) :
    Accepts SelectionTokens BehindSelection c (spreadOf start c.advance).1.bare
      (spreadOf start c.advance).2 := by
  have hdots := Cursor.accepts_advance hkind nofun
  have hlt : c.advance.left < c.left := Cursor.left_advance_lt (Cursor.left_pos_of_kind hkind nofun)
  unfold spreadOf
  split
  · rename_i hat
    have hon := Cursor.kind_of_at? hat
    have hset := hsets (directives (name c.advance.advance).result.2).result.2
      (Nat.lt_of_le_of_lt (Nat.le_trans (directives _).le (Nat.le_trans (name _).le (by simp))) hlt)
    refine (hdots.followed ((Cursor.accepts_advance hon nofun).followed ((accepts_name _).followed
      (accepts_directives_set hset) fun _ _ => trivial) fun _ _ => trivial) fun _ _ => trivial).of ?_ ?_
    · rintro _ ⟨⟨hdots⟩, ⟨hon⟩, hname, hmarks, hset⟩
      have hinline := SelectionTokens.inlineOn hdots hon hname hmarks hset
      exact hinline
    · rintro _ rest _ htokens hpart -
      rcases dots_cases hkind htokens hpart with ⟨-, w, hw, rfl⟩ | ⟨hnext, -⟩ | ⟨-, hnext, -⟩
      · exact ⟨w, hw, trivial, fun heq => by rw [← heq]; rfl⟩
      · rcases hnext with hnext | hnext <;> cases hon.symm.trans hnext
      · exact absurd hon hnext
  · rename_i hnot
    split
    · rename_i hat
      have hset := hsets (directives c.advance).result.2 (Nat.lt_of_le_of_lt (directives _).le hlt)
      refine (hdots.followed (accepts_directives_set hset) fun _ _ => trivial).of ?_ ?_
      · rintro _ ⟨⟨hdots⟩, hmarks, hset⟩
        have hinline := SelectionTokens.inline hdots hmarks hset
        exact hinline
      · rintro _ rest _ htokens hpart -
        rcases dots_cases hkind htokens hpart with ⟨hnext, -⟩ | ⟨-, w, hw, rfl⟩ | ⟨hword, -⟩
        · exact absurd (Cursor.at?_of_kind hnext) hnot
        · exact ⟨w, hw, trivial, fun heq => by rw [← heq]; rfl⟩
        · rw [Bool.or_eq_true] at hat
          rcases hat with hat | hat <;> exact absurd (Cursor.kind_of_at? hat) (TokenKind.ne_of_isName hword)
    · rename_i hat
      have hname := accepts_otherName fun h => hnot (Cursor.at?_of_kind h)
      refine (hdots.followed ((hname.followed (accepts_directives _) fun _ _ => trivial).mono
        fun _ (h : BehindSelection _) => h.toBehindDirectives) fun _ _ => trivial).of ?_ ?_
      · rintro _ ⟨⟨hdots⟩, hname, hmarks⟩
        have hspread := SelectionTokens.spread hdots hname hmarks
        exact hspread
      · rintro _ rest _ htokens hpart hrest
        rw [Bool.or_eq_true] at hat
        rcases dots_cases hkind htokens hpart with ⟨hnext, -⟩ | ⟨hnext | hnext, -⟩ | ⟨-, -, w, hw, rfl⟩
        · exact absurd (Cursor.at?_of_kind hnext) hnot
        · exact absurd (.inr (Cursor.at?_of_kind hnext)) hat
        · exact absurd (.inl (Cursor.at?_of_kind hnext)) hat
        · exact ⟨w, hw, hrest, fun heq => by rw [← heq]; rfl⟩

theorem accepts_selection (hsets : ∀ d, d.left < c.left → AcceptsSet d) :
    Accepts (Present SelectionTokens) BehindSelection c ((selection c).result.1.map Selection.bare)
      (selection c).result.2 := by
  rw [selection_result]
  split
  · rename_i hat
    exact (accepts_spreadOf hsets (Cursor.kind_of_at? hat) _).some
  · rename_i hat
    split
    · rename_i hname
      exact (accepts_fieldOf hsets hname).some
    · rename_i hname
      refine .of_dirty (Cursor.report_dirty _ _ _) ?_
      rintro _ rest _ htokens ⟨h⟩
      obtain ⟨t, ts, rfl, hspread | hword⟩ := h.starts
      · exact hat (Cursor.at?_of_kind ((Cursor.kind_of_tokens htokens).trans hspread))
      · exact hname ((Cursor.kind_of_tokens htokens).symm ▸ hword)

theorem accepts_selections (hsets : ∀ d, d.left < c.left → AcceptsSet d) :
    Accepts (ManyTokens SelectionTokens) (· = .mark .closeBrace) c
      (Selection.bareList (selections c).result.1) (selections c).result.2 := by
  rw [Selection.bareList_eq_map]
  refine @accepts_many _ _ _ (fun c => (selection c).result) (fun c => (selections c).result) _ _
    (fun kind => kind = .mark .spread ∨ kind.isName = true) BehindSelection _ _ selections_result
      (fun c => (selection c).lt) SelectionTokens.starts ?_ ⟨⟨nofun, nofun⟩, nofun, nofun⟩ ?_
    (Nat.le_refl _)
  · rintro kind (rfl | hword)
    · exact ⟨nofun, ⟨nofun, nofun⟩, nofun, nofun⟩
    · exact ⟨TokenKind.ne_of_isName hword, .of_isName hword⟩
  · exact fun d hd => accepts_selection fun e he => hsets e (Nat.lt_of_lt_of_le he hd)

/-- What stands behind the brace that opens a selection set. -/
inductive OpenedTokens : List Token → SelectionSet → Prop
  | mk {closing parts selections} (hselections : ManyTokens SelectionTokens parts selections)
      (hnonempty : selections ≠ []) (hclosing : closing.kind = .mark .closeBrace) :
      OpenedTokens (parts ++ [closing]) (.mk selections .none)

theorem accepts_openedSet_of (hsets : ∀ d, d.left < c.left → AcceptsSet d) (start : Nat) :
    Accepts OpenedTokens Anything c (openedSet start c).result.1.bare (openedSet start c).result.2 := by
  have hclosed := accepts_closed (accepts_selections hsets)
  rw [openedSet_result]
  dsimp only
  split
  · rename_i hempty
    rw [List.isEmpty_iff] at hempty
    refine ⟨fun hclean => absurd hclean (Cursor.report_dirty _ _ _),
      fun hclean => absurd hclean (Cursor.report_dirty _ _ _), fun hclean => ?_⟩
    rintro _ rest _ htokens ⟨hselections, hnonempty, hclosing⟩ -
    obtain ⟨heq, -⟩ := hclosed.complete hclean htokens (.mk hselections (.mk hclosing)) trivial
    rw [hempty] at heq
    exact absurd (Prod.mk.inj heq).1.symm hnonempty
  · rename_i hempty
    rw [List.isEmpty_iff] at hempty
    refine hclosed.of ?_ ?_
    · rintro _ ⟨hselections, ⟨hclosing⟩⟩
      refine .mk hselections (fun hnil => hempty ?_) hclosing
      rwa [Selection.bareList_eq_map, List.map_eq_nil_iff] at hnil
    · rintro _ rest _ - ⟨hselections, -, hclosing⟩ -
      exact ⟨_, .mk hselections (.mk hclosing), trivial,
        fun heq => congrArg (SelectionSet.mk · .none) (Prod.mk.inj heq).1⟩

/-- A brace and what stands behind it. -/
theorem accepts_braced {brace : Token} {set : SelectionSet} {next : Cursor}
    (h : Accepts (Followed (OfKind (.mark .openBrace)) OpenedTokens) Anything c (brace, set) next) :
    Accepts SetTokens Anything c set next := by
  refine h.of ?_ ?_
  · rintro _ ⟨⟨hopening⟩, hselections, hnonempty, hclosing⟩
    have h := SetTokens.mk hopening hselections hnonempty hclosing
    exact h
  · rintro _ rest _ - ⟨hopening, hselections, hnonempty, hclosing⟩ -
    exact ⟨_, .cons hopening (.mk hselections hnonempty hclosing), trivial, fun heq => (Prod.mk.inj heq).2⟩

theorem accepts_set (c : Cursor) : AcceptsSet c := by
  induction hn : c.left using Nat.strongRecOn generalizing c with
  | ind n ih =>
      have hopened := @accepts_openedSet_of (c.expect (.mark .openBrace)) (fun d hd =>
        ih _ (hn ▸ Nat.lt_of_lt_of_le hd (c.left_expect_le _)) d rfl) c.current.span.start
      rw [AcceptsSet, selectionSet_result]
      exact accepts_braced ((c.accepts_expect (.mark .openBrace) nofun).followed hopened fun _ _ => trivial)

/-- A selection set alone, from its brace on. -/
theorem accepts_query (hkind : c.kind = .mark .openBrace) (start : Nat) : Accepts SetTokens Anything c
    (openedSet start c.advance).result.1.bare (openedSet start c.advance).result.2 :=
  accepts_braced ((Cursor.accepts_advance hkind nofun).followed
    (accepts_openedSet_of (fun d _ => accepts_set d) start)
    fun _ _ => trivial)

/-! ### Definitions -/

theorem accepts_default (c : Cursor) : Accepts (MaybeTokens DefaultTokens) (· ≠ .mark .equals) c
    ((defaultLiteral c).result.1.map Literal.bare) (defaultLiteral c).result.2 := by
  rw [defaultLiteral_result]
  split
  · rename_i hat
    have hkind := Cursor.kind_of_at? hat
    refine ((Cursor.accepts_advance hkind nofun).followed (accepts_literal _) fun _ _ => trivial).of ?_ ?_
    · rintro _ ⟨⟨hequals⟩, hvalue⟩
      exact .some (.mk hequals hvalue)
    · rintro _ rest _ htokens (- | ⟨hequals, hvalue⟩) hrest
      · exact absurd ((Cursor.kind_of_tokens htokens).symm.trans hkind) hrest
      · exact ⟨_, .cons hequals hvalue, trivial, fun heq => congrArg some (Prod.mk.inj heq).2⟩
  · rename_i hat
    refine .of_nothing .none ?_
    rintro _ rest _ htokens (- | ⟨hequals, -⟩) -
    · exact ⟨rfl, rfl⟩
    · exact absurd (Cursor.at?_of_kind ((Cursor.kind_of_tokens htokens).trans hequals)) hat

/-- What may come behind the definition of a variable. -/
structure BehindVariable (kind : TokenKind) : Prop extends BehindDirectives kind where
  equals : kind ≠ .mark .equals
  bang : kind ≠ .mark .bang

theorem firstKind_default {parts : List Token} {default : Option Literal}
    (h : MaybeTokens DefaultTokens parts default)
    {rest : List Token} {kind : TokenKind} (hequals : .mark .equals ≠ kind) (hrest : firstKind rest ≠ kind) :
    firstKind (parts ++ rest) ≠ kind := by
  obtain - | ⟨h, -⟩ := h
  · exact hrest
  · rwa [List.cons_append, firstKind_cons, h]

/-- A variable definition, from its mark on. -/
theorem accepts_variableDefinition (hkind : c.kind = .mark .dollar) (start : Nat) :
    Accepts VariableTokens BehindVariable c (variableDefinition start c.advance).result.1.bare
      (variableDefinition start c.advance).result.2 := by
  rw [variableDefinition_result]
  dsimp only
  have hmarks := (accepts_directives (defaultLiteral (typeExpr ((name c.advance).result.2.expect
    (.mark .colon))).result.2).result.2).mono fun _ (h : BehindVariable _) => h.toBehindDirectives
  have hdefault := (accepts_default _).followed hmarks fun hmarks hrest =>
    firstKind_directives hmarks nofun hrest.equals
  have htype := (accepts_typeExpr _).followed hdefault fun hpart hrest => by
    obtain ⟨hdefault, hmarks⟩ := hpart
    rw [List.append_assoc]
    exact firstKind_default hdefault nofun (firstKind_directives hmarks nofun hrest.bang)
  have hname := (accepts_name c.advance).followed
    ((Cursor.accepts_expect _ (.mark .colon) nofun).followed htype
    fun _ _ => trivial) fun _ _ => trivial
  refine ((Cursor.accepts_advance hkind nofun).followed hname fun _ _ => trivial).of ?_ ?_
  · rintro _ ⟨⟨hmark⟩, hname, ⟨hcolon⟩, htype, hdefault, hmarks⟩
    have h := VariableTokens.mk hmark hname hcolon htype hdefault hmarks
    exact h
  · rintro _ rest _ - ⟨hmark, hname, hcolon, htype, hdefault, hmarks⟩ hrest
    exact ⟨_, .cons hmark (.mk hname (.cons hcolon (.mk htype (.mk hdefault hmarks)))), hrest,
      fun heq => by cases heq; rfl⟩

/-- The variable definition at a cursor, or none where no dollar stands. -/
def variableOf (c : Cursor) : Option VariableDefinition × Cursor :=
  if c.at? (.mark .dollar) then
    let first := (variableDefinition c.current.span.start c.advance).result
    (some first.1, first.2)
  else (none, (c.expect (.mark .dollar)).advance)

theorem accepts_variableList (c : Cursor) : Accepts (ManyTokens VariableTokens) (· = .mark .closeParen) c
    ((variableList c).result.1.map VariableDefinition.bare) (variableList c).result.2 := by
  refine @accepts_many _ _ _ variableOf (fun c => (variableList c).result) _ _
    (· = .mark .dollar) BehindVariable _ _
    ?_ ?_ VariableTokens.starts ?_ ⟨⟨by decide, by decide⟩, by decide, by decide⟩ ?_ (Nat.le_refl _)
  · intro d
    rw [variableList_result]
    by_cases hat : d.at? (.mark .dollar) = true
    · rw [if_pos hat, show variableOf d = (some _, _) from if_pos hat]
      rfl
    · rw [if_neg hat, show variableOf d = (none, _) from if_neg hat]
      rfl
  · intro d hpos
    unfold variableOf
    split
    · exact Nat.lt_of_le_of_lt (variableDefinition d.current.span.start _).le (Cursor.left_advance_lt hpos)
    · have := d.left_expect_le (.mark .dollar)
      rw [Cursor.left_advance]
      omega
  · rintro _ rfl
    exact ⟨by decide, ⟨by decide, by decide⟩, by decide, by decide⟩
  · intro d _
    unfold variableOf
    split
    · rename_i hat
      exact (accepts_variableDefinition (Cursor.kind_of_at? hat) _).some
    · rename_i hat
      refine .of_dirty ?_ ?_
      · rw [Cursor.expect, if_neg hat]
        exact Cursor.report_dirty _ _ _
      · rintro _ rest _ htokens ⟨h⟩
        obtain ⟨t, ts, rfl, hmark⟩ := h.starts
        exact hat (Cursor.at?_of_kind ((Cursor.kind_of_tokens htokens).trans hmark))

theorem accepts_variableDefinitions (c : Cursor) :
    Accepts (ParenTokens VariableTokens) (· ≠ .mark .openParen) c
    ((variableDefinitions c).result.1.map VariableDefinition.bare) (variableDefinitions c).result.2 :=
  accepts_paren (accepts_variableList c.advance) (variableDefinitions_result c)

/-- What stands behind the name of an operation. -/
abbrev BodyTokens : List Token → List VariableDefinition × List Directive × SelectionSet → Prop :=
  Followed (ParenTokens VariableTokens) (Followed (ManyTokens DirectiveTokens) SetTokens)

theorem accepts_operationBody (c : Cursor) (start : Nat) (kind : OperationKind) (target : Option Name) :
    Accepts BodyTokens Anything c
      ((operationBody start kind target c).result.1.variableDefinitions.map VariableDefinition.bare,
        (operationBody start kind target c).result.1.directives.map Directive.bare,
        (operationBody start kind target c).result.1.set.bare)
      (operationBody start kind target c).result.2 := by
  rw [operationBody_result]
  refine (accepts_variableDefinitions c).followed (accepts_directives_set (accepts_set _)) ?_
  intro part rest _ hpart _
  obtain ⟨hmarks, hset⟩ := hpart
  rw [List.append_assoc]
  exact firstKind_directives hmarks nofun (BehindDirectives.set hset).openParen

/-- The name of an operation, if one stands at a cursor. -/
def operationName? (c : Cursor) : Option Name × Cursor :=
  if c.kind.isName && !c.at? (.keyword .on) then (some (name c).result.1, (name c).result.2) else (none, c)

theorem operation_eq (start : Nat) (kind : OperationKind) (c : Cursor) : (operation start kind c).result =
    (operationBody start kind (operationName? c).1 (operationName? c).2).result := by
  rw [operation_result]
  by_cases h : (c.kind.isName && !c.at? (.keyword .on)) = true
  · rw [if_pos h, show operationName? c = (some _, _) from if_pos h]
  · rw [if_neg h, show operationName? c = (none, _) from if_neg h]

theorem accepts_operationName? (c : Cursor) : Accepts (MaybeTokens OtherNameTokens) (·.isName = false) c
    ((operationName? c).1.map Name.bare) (operationName? c).2 := by
  unfold operationName?
  split
  · rename_i h
    rw [Bool.and_eq_true, Bool.not_eq_true'] at h
    refine (accepts_otherName fun hon => ?_).of .some ?_
    · rw [Cursor.at?_of_kind hon] at h
      cases h.2
    · rintro _ rest _ htokens (- | hname) hrest
      · rw [List.nil_append] at htokens
        rw [Cursor.kind_of_tokens htokens, hrest] at h
        cases h.1
      · exact ⟨_, hname, trivial, congrArg some⟩
  · rename_i h
    refine .of_nothing .none ?_
    rintro _ rest _ htokens (- | ⟨hword, hon⟩) -
    · exact ⟨rfl, rfl⟩
    · refine absurd ?_ h
      have hkind := Cursor.kind_of_tokens htokens
      rw [Bool.and_eq_true, Bool.not_eq_true', hkind]
      refine ⟨hword, Bool.eq_false_iff.2 fun hat => hon ?_⟩
      exact hkind.symm.trans (Cursor.kind_of_at? hat)

/-- No name stands where the rest of an operation does. -/
theorem isName_firstKind_body {part : List Token} {value} (h : BodyTokens part value) (rest : List Token) :
    (firstKind (part ++ rest)).isName = false := by
  obtain ⟨hdefinitions, hmarks, hset⟩ := h
  rw [List.append_assoc, List.append_assoc]
  refine Bool.eq_false_iff.2 fun hword => ?_
  refine firstKind_paren hdefinitions (TokenKind.ne_of_isName hword).symm ?_ rfl
  refine firstKind_directives hmarks (TokenKind.ne_of_isName hword).symm ?_
  rw [firstKind_set hset]
  exact (TokenKind.ne_of_isName hword).symm

theorem operationKind?_eq_some {word : Keyword} {kind : OperationKind} :
    operationKind? word = some kind ↔ word = kind.keyword := by
  cases word <;> cases kind <;> simp [operationKind?, OperationKind.keyword]

/-- An operation, from its keyword on. -/
theorem accepts_operation {kind : OperationKind} (hkind : c.kind = .keyword kind.keyword) (start : Nat) :
    Accepts OperationTokens Anything c (operation start kind c.advance).result.1.bare
      (operation start kind c.advance).result.2 := by
  rw [operation_eq]
  have hbody := accepts_operationBody (operationName? c.advance).2 start kind (operationName? c.advance).1
  have hname := (accepts_operationName? c.advance).followed hbody fun hpart _ => isName_firstKind_body hpart _
  refine ((Cursor.accepts_advance hkind nofun).followed hname fun _ _ => trivial).of ?_ ?_
  · rintro _ ⟨⟨hword⟩, hname, hdefinitions, hmarks, hset⟩
    have h := OperationTokens.keyword hword hname hdefinitions hmarks hset
    exact h
  · rintro _ rest _ htokens (hset | ⟨hword, hname, hdefinitions, hmarks, hset⟩) -
    · cases hkind.symm.trans ((Cursor.kind_of_tokens htokens).trans (firstKind_set hset rest))
    · have hword' := hword.symm.trans ((Cursor.kind_of_tokens htokens).symm.trans hkind)
      cases OperationKind.keyword_injective (TokenKind.keyword.inj hword')
      exact ⟨_, .cons hword (.mk hname (.mk hdefinitions (.mk hmarks hset))), trivial,
        fun heq => by cases heq; rfl⟩

/-- A fragment, from its keyword on. -/
theorem accepts_fragment (hkind : c.kind = .keyword .fragment) (start : Nat) :
    Accepts FragmentTokens Anything c (fragment start c.advance).result.1.bare
      (fragment start c.advance).result.2 := by
  rw [fragment_result]
  have hcondition := fun d : Cursor => (accepts_name d).followed (accepts_directives_set (accepts_set _))
    fun _ _ => trivial
  have hname := (accepts_name c.advance).followed
    ((Cursor.accepts_expect _ (.keyword .on) nofun).followed (hcondition _)
    fun _ _ => trivial) fun _ _ => trivial
  refine ((Cursor.accepts_advance hkind nofun).followed hname fun _ _ => trivial).of ?_ ?_
  · rintro _ ⟨⟨hword⟩, hname, ⟨hon⟩, hcondition, hmarks, hset⟩
    have h := FragmentTokens.mk hword hname hon hcondition hmarks hset
    exact h
  · rintro _ rest _ - ⟨hword, hname, hon, hcondition, hmarks, hset⟩ -
    exact ⟨_, .cons hword (.mk hname (.cons hon (.mk hcondition (.mk hmarks hset)))), trivial,
      fun heq => by cases heq; rfl⟩

theorem worded_operation (kind : OperationKind) : worded c kind.keyword =
    (some (.operation (operation c.current.span.start kind c.advance).result.1),
      (operation c.current.span.start kind c.advance).result.2) := by
  cases kind <;> rfl

theorem worded_sound {word : Keyword} (hkind : c.kind = .keyword word)
    (hclean : (worded c word).2.diagnostics = []) :
    ∃ part, c.tokens = part ++ (worded c word).2.tokens ∧
      DefinitionTokens part ((worded c word).1.map Definition.bare) := by
  cases hword : operationKind? word with
  | some kind =>
      rw [operationKind?_eq_some] at hword
      subst hword
      rw [worded_operation] at hclean ⊢
      obtain ⟨_, htokens, h⟩ := (accepts_operation hkind _).sound hclean
      exact ⟨_, htokens, .operation h⟩
  | none =>
      unfold worded at hclean ⊢
      rw [hword] at hclean ⊢
      dsimp only at hclean ⊢
      split at hclean
      · rename_i hfragment
        rw [if_pos hfragment]
        subst hfragment
        obtain ⟨_, htokens, h⟩ := (accepts_fragment hkind _).sound hclean
        exact ⟨_, htokens, .fragment h⟩
      · split at hclean
        · -- what is skipped has been reported
          have hskipped := (skipDefinition_agree 0 (Cursor.onward_rel _) (Nat.zero_le _)).2.2.clean hclean
          exact absurd hskipped (Cursor.report_dirty _ _ _)
        · exact absurd hclean (Cursor.report_dirty _ _ _)

theorem accepts_definitionOf (c : Cursor) : Accepts DefinitionTokens Anything c
    ((definitionOf c c.kind).1.map Definition.bare) (definitionOf c c.kind).2 := by
  refine ⟨(definitionOf_onward c c.kind).clean, ?_, ?_⟩
  · generalize hkind : c.kind = kind
    fun_cases definitionOf c kind with
    | case1 =>
        intro hclean
        obtain ⟨_, htokens, hset⟩ := (accepts_query hkind _).sound hclean
        exact ⟨_, htokens, .operation (.set hset)⟩
    | case2 =>
        intro hclean
        obtain ⟨_, htokens, ⟨hstring⟩⟩ := (Cursor.accepts_advance hkind (by decide)).sound hclean
        exact ⟨_, htokens, .string (.inl hstring)⟩
    | case3 =>
        intro hclean
        obtain ⟨_, htokens, ⟨hstring⟩⟩ := (Cursor.accepts_advance hkind (by decide)).sound hclean
        exact ⟨_, htokens, .string (.inr hstring)⟩
    | case4 => exact worded_sound hkind
    | case5 => exact fun hclean => absurd hclean (Cursor.report_dirty _ _ _)
  · rintro hclean _ rest _ htokens (hstring | hoperation | hfragment) -
    · rcases hstring with hstring | hstring
      · have hkind := (Cursor.kind_of_tokens htokens).trans hstring
        rw [hkind]
        exact ⟨rfl, ((Cursor.accepts_advance hkind (by decide)).complete hclean htokens
          (.mk hstring) trivial).2⟩
      · have hkind := (Cursor.kind_of_tokens htokens).trans hstring
        rw [hkind]
        exact ⟨rfl, ((Cursor.accepts_advance hkind (by decide)).complete hclean htokens
          (.mk hstring) trivial).2⟩
    · obtain hset | ⟨hword, hname, hdefinitions, hmarks, hset⟩ := id hoperation
      · have hkind := (Cursor.kind_of_tokens htokens).trans (firstKind_set hset rest)
        rw [hkind]
        obtain ⟨heq, hnext⟩ := (accepts_query hkind c.current.span.start).complete hclean htokens hset trivial
        cases heq
        exact ⟨rfl, hnext⟩
      · have hkind := (Cursor.kind_of_tokens htokens).trans hword
        rw [hkind, definitionOf, worded_operation]
        obtain ⟨heq, hnext⟩ :=
          (accepts_operation hkind c.current.span.start).complete hclean htokens hoperation trivial
        exact ⟨congrArg (some ∘ Definition.operation) heq, hnext⟩
    · obtain ⟨hword, -, -, -, -, -⟩ := id hfragment
      have hkind := (Cursor.kind_of_tokens htokens).trans hword
      rw [hkind]
      obtain ⟨heq, hnext⟩ :=
        (accepts_fragment hkind c.current.span.start).complete hclean htokens hfragment trivial
      exact ⟨congrArg (some ∘ Definition.fragment) heq, hnext⟩

theorem map_bare_toList_append (first : Option Definition) (rest : List Definition) :
    (first.toList ++ rest).map Definition.bare = (first.map Definition.bare).toList ++
      rest.map Definition.bare := by
  cases first <;> rfl

/-- The definitions read without a mistake derive all the tokens. -/
theorem definitions_sound (hclean : (definitions c).result.2.diagnostics = []) :
    DocumentTokens c.tokens ((definitions c).result.1.map Definition.bare) := by
  induction hn : c.left using Nat.strongRecOn generalizing c with
  | ind n ih =>
      rw [definitions_result] at hclean ⊢
      split
      · rename_i hstop
        rw [List.isEmpty_iff.1 hstop]
        exact .nil
      · rename_i hstop
        rw [if_neg hstop] at hclean
        have hlt := left_definitionOf_lt (Cursor.left_pos_of_not_atEnd (by simpa using hstop) : 0 < c.left)
        obtain ⟨_, htokens, hfirst⟩ := (accepts_definitionOf c).sound ((definitions_onward _).clean hclean)
        rw [htokens, map_bare_toList_append]
        exact .cons hfirst (ih _ (hn ▸ hlt) hclean rfl)

/-- Tokens that definitions derive are read as these definitions. -/
theorem definitions_complete {list : List Definition} (h : DocumentTokens c.tokens list)
    (hclean : c.diagnostics = []) :
    (definitions c).result.1.map Definition.bare = list ∧ (definitions c).result.2.diagnostics = [] := by
  generalize htokens : c.tokens = tokens at h
  induction h generalizing c with
  | nil =>
      have hstop : c.atEnd = true := List.isEmpty_iff.2 htokens
      rw [definitions_result, if_pos hstop]
      exact ⟨rfl, hclean⟩
  | cons hfirst hrest ih =>
      obtain ⟨hvalue, hnext, hclean'⟩ := (accepts_definitionOf c).complete hclean htokens hfirst trivial
      obtain ⟨hlist, hend⟩ := ih hclean' hnext
      obtain ⟨t, ts, rfl⟩ := List.exists_cons_of_ne_nil hfirst.ne_nil
      have hmore : ¬c.atEnd = true := by
        rw [Cursor.atEnd, htokens]
        exact Bool.false_ne_true
      rw [definitions_result, if_neg hmore]
      dsimp only
      rw [map_bare_toList_append, hvalue, hlist]
      exact ⟨rfl, hend⟩

end Parser

/-! ### Selection sets ask for something -/

/-- The selection set of a selection, if it has one. -/
def Selection.set? : Selection → Option SelectionSet
  | .field _ _ _ _ set _ => set
  | .spread _ _ _ => none
  | .inline _ _ set _ => some set

/-- That a selection set and all those within it ask for something. -/
inductive SelectionSet.Full : SelectionSet → Prop
  | mk {list : List Selection} {span : Span} (hnonempty : list ≠ [])
      (hinner : ∀ s ∈ list, ∀ set, s.set? = some set → Full set) : Full (.mk list span)

theorem SelectionSet.Full.selections {set : SelectionSet} (h : set.Full) :
    set.selections ≠ [] ∧ ∀ s ∈ set.selections, ∀ inner, s.set? = some inner → inner.Full := by
  obtain ⟨hnonempty, hinner⟩ := h
  exact ⟨hnonempty, hinner⟩

theorem ManyTokens.exists_of_mem {α : Type} {P : List Token → α → Prop} {parts : List Token} {values : List α}
    (h : ManyTokens P parts values) {value : α} (hmem : value ∈ values) :
    ∃ part, part.length ≤ parts.length ∧ P part value := by
  induction h with
  | nil => cases hmem
  | cons hfirst _ ih =>
      rcases List.mem_cons.1 hmem with rfl | hmem
      · exact ⟨_, by simp, hfirst⟩
      · obtain ⟨part, hle, hpart⟩ := ih hmem
        exact ⟨part, by rw [List.length_append]; omega, hpart⟩

theorem SelectionTokens.exists_set {part : List Token} {s : Selection} {set : SelectionSet}
    (h : SelectionTokens part s)
    (hset : s.set? = some set) : ∃ parts, parts.length ≤ part.length ∧ SetTokens parts set := by
  cases h with
  | inlineOn _ _ _ _ h =>
      cases hset
      exact ⟨_, by simp; omega, h⟩
  | inline _ _ h =>
      cases hset
      exact ⟨_, by simp; omega, h⟩
  | spread => cases hset
  | field _ _ _ h =>
      cases hset
      obtain - | h := h
      exact ⟨_, by simp; omega, h⟩

theorem SetTokens.full {parts : List Token} {set : SelectionSet} (h : SetTokens parts set) : set.Full := by
  induction hn : parts.length using Nat.strongRecOn generalizing parts set with
  | ind n ih =>
      obtain ⟨-, hselections, hnonempty, -⟩ := h
      refine .mk hnonempty fun s hs set hset => ?_
      obtain ⟨part, hle, hpart⟩ := hselections.exists_of_mem hs
      obtain ⟨parts', hle', hset'⟩ := hpart.exists_set hset
      rw [List.length_cons, List.length_append] at hn
      exact ih _ (by omega) hset' rfl

theorem SelectionSet.Full.of_bare {set : SelectionSet} (h : set.bare.Full) : set.Full := by
  generalize hbare : set.bare = bare at h
  induction h generalizing set with
  | mk hnonempty _ ih =>
      obtain ⟨list, span⟩ := set
      rw [SelectionSet.bare, SelectionSet.mk.injEq, Selection.bareList_eq_map] at hbare
      obtain ⟨rfl, -⟩ := hbare
      refine .mk (fun hnil => hnonempty (by rw [hnil, List.map_nil])) fun s hs set hset => ?_
      refine ih _ (List.mem_map_of_mem hs) set.bare ?_ rfl
      cases s with
      | field =>
          cases hset
          rfl
      | spread => cases hset
      | inline =>
          cases hset
          rfl

theorem DocumentTokens.full {tokens : List Token} {definitions : List Definition}
    (h : DocumentTokens tokens definitions)
    {definition : Definition} (hmem : definition ∈ definitions) : definition.set.Full := by
  induction h with
  | nil => cases hmem
  | cons hfirst _ ih =>
      rcases List.mem_append.1 hmem with hmem | hmem
      · cases hfirst with
        | string => cases hmem
        | operation h =>
            cases List.mem_singleton.1 hmem
            cases h with
            | set hset => exact hset.full
            | keyword _ _ _ _ hset => exact hset.full
        | fragment h =>
            cases List.mem_singleton.1 hmem
            cases h with
            | mk _ _ _ _ _ hset => exact hset.full
      · exact ih hmem

/-- In a document without mistakes every selection set asks for something. -/
theorem full_of_parseDocument {source : String} (hclean : (parseDocument source).diagnostics = [])
    {definition : Definition} (hmem : definition ∈ (parseDocument source).document.definitions) :
    definition.set.Full := by
  obtain ⟨c, -, -, hdefinitions, hdiagnostics⟩ := parseDocument_eq source
  rw [hdiagnostics] at hclean
  rw [hdefinitions] at hmem
  have hfull := (Parser.definitions_sound hclean).full (List.mem_map_of_mem hmem)
  cases definition <;> exact hfull.of_bare

/-! ### What is read -/

/-- **Reading accepts the grammar.** A text is read without mistakes just if the grammar derives its
tokens, and it is read as the one tree that they are derived from. -/
theorem parseDocument_derives (source : String) :
    ((parseDocument source).diagnostics = [] ↔ ∃ list, DocumentTokens (tokenize source).dropLast list) ∧
      ∀ list, DocumentTokens (tokenize source).dropLast list ↔
        (parseDocument source).diagnostics = [] ∧
          (parseDocument source).document.definitions.map Definition.bare = list := by
  obtain ⟨c, hstream, hclean, hdefinitions, hdiagnostics⟩ := parseDocument_eq source
  have htokens : (tokenize source).dropLast = c.tokens := by
    rw [tokenize, ← hstream, Cursor.stream, List.dropLast_concat]
  rw [htokens, hdefinitions, hdiagnostics]
  refine ⟨⟨fun h => ⟨_, Parser.definitions_sound h⟩, ?_⟩,
    fun list => ⟨fun h => (Parser.definitions_complete h hclean).symm, ?_⟩⟩
  · rintro ⟨_, h⟩
    exact (Parser.definitions_complete h hclean).2
  · rintro ⟨h, rfl⟩
    exact Parser.definitions_sound h

end GraphClient
