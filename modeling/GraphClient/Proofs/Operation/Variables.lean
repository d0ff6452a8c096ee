import GraphClient.Proofs.Document.Cutting
import GraphClient.Proofs.Document.Progress
import GraphClient.Proofs.Operation.Binding

/-! The variables of an operation in writing. Type and default of a variable are handed on as texts.
The text of a type is read as the type again; the text of a default is what stands in the document
from the first token of the value to the last one, and is read as the value again, unless the value is
a variable: of this the mark is lost (`variables_survive`). -/

namespace GraphClient

theorem ManyTokens.exists_of_mem_tokens {α : Type} {P : List Token → α → Prop}
    {parts : List Token} {values : List α}
    (h : ManyTokens P parts values) {t : Token} (ht : t ∈ parts) :
    ∃ part value, t ∈ part ∧ part.length ≤ parts.length ∧ P part value := by
  induction h with
  | nil => cases ht
  | cons hfirst _ ih =>
      rw [List.length_append]
      rcases List.mem_append.1 ht with ht | ht
      · exact ⟨_, _, ht, Nat.le_add_right _ _, hfirst⟩
      · obtain ⟨part, value, hmem, hle, hpart⟩ := ih ht
        exact ⟨part, value, hmem, Nat.le_add_left_of_le hle, hpart⟩

theorem NameTokens.valid {part : List Token} {name : Name} (h : NameTokens part name)
    {t : Token} (ht : t ∈ part) :
    t.kind ≠ .invalid ∧ t.kind ≠ .finish := by
  obtain ⟨hword⟩ := h
  rw [List.mem_singleton.1 ht]
  constructor <;> (intro hkind; rw [hkind] at hword; cases hword)

/-- A value is written with tokens only that mean something. -/
theorem LiteralTokens.valid {part : List Token} {value : Literal} (h : LiteralTokens part value) {t : Token}
    (ht : t ∈ part) : t.kind ≠ .invalid ∧ t.kind ≠ .finish := by
  induction hn : part.length using Nat.strongRecOn generalizing part value with
  | ind n ih =>
      have hone {u : Token} {kind : TokenKind} (hu : t = u) (hkind : u.kind = kind)
          (hvalid : kind ≠ .invalid ∧ kind ≠ .finish) : t.kind ≠ .invalid ∧ t.kind ≠ .finish := by
        rw [hu, hkind]
        exact hvalid
      cases h with
      | dollar hmark hname =>
          rcases List.mem_cons.1 ht with ht | ht
          · exact hone ht hmark (by decide)
          · exact hname.valid ht
      | int hkind => exact hone (List.mem_singleton.1 ht) hkind (by decide)
      | float hkind => exact hone (List.mem_singleton.1 ht) hkind (by decide)
      | string hkind => exact hone (List.mem_singleton.1 ht) hkind (by decide)
      | blockString hkind => exact hone (List.mem_singleton.1 ht) hkind (by decide)
      | name hword => exact (NameTokens.mk hword).valid ht
      | list hopening hitems hclosing =>
          rw [List.length_cons, List.length_append] at hn
          rcases List.mem_cons.1 ht with ht | ht
          · exact hone ht hopening (by decide)
          rcases List.mem_append.1 ht with ht | ht
          · obtain ⟨part, value, hmem, hle, hpart⟩ := hitems.exists_of_mem_tokens ht
            exact ih part.length (by omega) hpart hmem rfl
          · exact hone (List.mem_singleton.1 ht) hclosing (by decide)
      | object hopening hfields hclosing =>
          rw [List.length_cons, List.length_append] at hn
          rcases List.mem_cons.1 ht with ht | ht
          · exact hone ht hopening (by decide)
          rcases List.mem_append.1 ht with ht | ht
          · obtain ⟨part, value, hmem, hle, hpart⟩ := hfields.exists_of_mem_tokens ht
            obtain ⟨hname, hcolon, hvalue⟩ := hpart
            rw [List.length_append, List.length_cons] at hle
            rcases List.mem_append.1 hmem with hmem | hmem
            · exact hname.valid hmem
            rcases List.mem_cons.1 hmem with hmem | hmem
            · exact hone hmem hcolon (by decide)
            · exact ih _ (by omega) hvalue hmem rfl
          · exact hone (List.mem_singleton.1 ht) hclosing (by decide)

def Literal.IsVariable : Literal → Prop
  | .variable _ => True
  | _ => False

namespace Cursor

theorem stream_eq_cons {c : Cursor} (h : c.kind ≠ .finish) : c.stream = c.current :: c.advance.stream := by
  obtain ⟨rest, hrest⟩ := tokens_of_kind rfl h
  rw [stream, stream, tokens_advance hrest, hrest, List.cons_append]
  rfl

end Cursor

namespace Parser

variable {c : Cursor}

/-- That a value was read from a cursor on, with the current token of another one as its last token. -/
structure Reaches (c e : Cursor) (value : Literal) (next : Cursor) : Prop where
  onward : c.Onward e
  kind : e.kind ≠ .finish
  next : next = e.advance
  name : ∀ name, value = .variable name → name = ⟨e.current.text, e.current.span⟩
  span : ¬value.IsVariable → c.current.span.start ≤ e.current.span.stop →
    value.span = ⟨c.current.span.start, e.current.span.stop⟩

theorem reaches_token {value : Literal} (hkind : c.kind ≠ .finish) (hvalue : ¬value.IsVariable)
    (hspan : value.span = c.current.span) : Reaches c c value c.advance where
  onward := .refl c
  kind := hkind
  next := rfl
  name _ heq := absurd (heq ▸ trivial) hvalue
  span _ _ := hspan

theorem reaches_closed {d : Cursor} {value : Literal} {mark : Mark} (honward : c.Onward d)
    (hclean : (d.expect (.mark mark)).diagnostics = []) (hvalue : ¬value.IsVariable)
    (hspan : value.span = (d.expect (.mark mark)).spanFrom c.current.span.start) :
    Reaches c d value (d.expect (.mark mark)) := by
  obtain ⟨hkind, hnext⟩ := Cursor.expect_eq_advance hclean
  refine ⟨honward, by rw [hkind]; simp, hnext, fun name heq => absurd (heq ▸ trivial) hvalue, fun _ hle => ?_⟩
  rw [hspan, hnext, Cursor.spanFrom, Cursor.advance]
  dsimp only
  rw [Nat.max_eq_left hle]

theorem name_of_isName (h : c.kind.isName = true) :
    (name c).result = (⟨c.current.text, c.current.span⟩, c.advance) := by
  rw [name_result, if_pos h]

theorem isName_of_clean (hclean : (name c).result.2.diagnostics = []) : c.kind.isName = true := by
  by_contra h
  rw [name_result, if_neg h] at hclean
  exact Cursor.report_dirty _ _ _ hclean

theorem literalOf_reaches : (literalOf c c.kind).2.diagnostics = [] →
    ∃ e, Reaches c e (literalOf c c.kind).1 (literalOf c c.kind).2 := by
  generalize hkind : c.kind = kind
  have htoken {value : Literal} (hfinish : kind ≠ .finish) (hvalue : ¬value.IsVariable)
      (hspan : value.span = c.current.span) : ∃ e, Reaches c e value c.advance :=
    ⟨c, reaches_token (hkind ▸ hfinish) hvalue hspan⟩
  fun_cases literalOf c kind with
  | case1 =>
      intro hclean
      have hname := isName_of_clean hclean
      rw [name_of_isName hname]
      refine ⟨c.advance, c.onward_advance, TokenKind.ne_finish_of_isName hname, rfl, ?_,
        fun hvalue => absurd trivial hvalue⟩
      rintro _ ⟨⟩
      rfl
  | case2 =>
      rw [intLiteral_result]
      cases LiteralText.int? c.current.text with
      | some value => exact fun _ => htoken (by decide) id rfl
      | none => exact fun hclean => absurd hclean (Cursor.report_dirty _ _ _)
  | case3 => exact fun _ => htoken (by decide) id rfl
  | case4 => exact fun _ => htoken (by decide) id rfl
  | case5 => exact fun _ => htoken (by decide) id rfl
  | case6 => exact fun _ => htoken (by decide) id rfl
  | case7 => exact fun _ => htoken (by decide) id rfl
  | case8 => exact fun _ => htoken (by decide) id rfl
  | case9 =>
      intro hclean
      exact ⟨_, reaches_closed (c.onward_advance.trans (run_onward .literalList _)) hclean id rfl⟩
  | case10 =>
      intro hclean
      exact ⟨_, reaches_closed (c.onward_advance.trans (run_onward .literalFields _)) hclean id rfl⟩
  | case11 _ _ _ _ _ _ _ _ _ _ _ hname =>
      intro _
      rw [name_of_isName (hkind ▸ hname)]
      exact htoken (TokenKind.ne_finish_of_isName hname) id rfl
  | case12 => exact fun hclean => absurd hclean (Cursor.report_dirty _ _ _)

/-- **Where a value stands.** The tokens of a value that was read without a mistake,
from the first one to the last. -/
structure Stands (c : Cursor) (value : Literal) (next : Cursor) (part : List Token)
    (last : Token) : Prop where
  tokens : c.tokens = part ++ next.tokens
  literal : LiteralTokens part value.bare
  head : part.head? = some c.current
  getLast : part.getLast? = some last
  name : ∀ name, value = .variable name → name = ⟨last.text, last.span⟩
  span : ¬value.IsVariable → c.current.span.start ≤ last.span.stop →
    value.span = ⟨c.current.span.start, last.span.stop⟩

theorem exists_stands (hclean : (literal c).result.2.diagnostics = []) :
    ∃ part last, Stands c (literal c).result.1 (literal c).result.2 part last := by
  obtain ⟨part, htokens, hpart⟩ := (accepts_literal c).sound hclean
  have hreaches : ∃ e, Reaches c e (literal c).result.1 (literal c).result.2 := by
    rw [literal_result] at hclean ⊢
    exact literalOf_reaches hclean
  obtain ⟨e, he⟩ := hreaches
  obtain ⟨skipped, hskipped⟩ := he.onward.tokens
  obtain ⟨rest, hrest⟩ := Cursor.tokens_of_kind rfl he.kind
  have hnext : (literal c).result.2.tokens = rest := by
    rw [he.next]
    exact Cursor.tokens_advance hrest
  have heq : part = skipped ++ [e.current] := by
    refine List.append_cancel_right (htokens.symm.trans ?_)
    rw [← hskipped, hrest, hnext, List.append_assoc, List.singleton_append]
  refine ⟨part, e.current, htokens, hpart, ?_, by rw [heq, List.getLast?_concat], he.name, he.span⟩
  obtain ⟨t, ts, rfl, -⟩ := hpart.starts
  rw [Cursor.current, htokens]
  rfl

/-- That a variable definition was read, without a mistake, behind a cursor. -/
def ReadsVariable (c : Cursor) (d : VariableDefinition) : Prop :=
  ∃ start e, c.Onward e ∧ (variableDefinition start e).result.1 = d ∧
    (variableDefinition start e).result.2.diagnostics = []

theorem ReadsVariable.before {c e : Cursor} {d : VariableDefinition} (honward : c.Onward e)
    (h : ReadsVariable e d) :
    ReadsVariable c d := by
  obtain ⟨start, e', honward', h⟩ := h
  exact ⟨start, e', honward.trans honward', h⟩

variable {d : VariableDefinition}

theorem readsVariable_of_list (hclean : (variableList c).result.2.diagnostics = [])
    (hd : d ∈ (variableList c).result.1) : ReadsVariable c d := by
  induction hn : c.left using Nat.strongRecOn generalizing c with
  | ind n ih =>
      rw [variableList_result] at hclean hd
      split at hclean
      · rename_i hstop
        rw [if_pos hstop] at hd
        cases hd
      rename_i hstop
      rw [if_neg hstop] at hd
      have hpos := Cursor.left_pos_of_not_stop hstop
      split at hclean
      · rename_i hdollar
        rw [if_pos hdollar] at hd
        have hfirst := run_onward (.variableDefinition c.current.span.start) c.advance
        rcases List.mem_cons.1 hd with rfl | hd
        · exact ⟨_, _, c.onward_advance, rfl, (run_onward .variableList _).clean hclean⟩
        · have hlt : (variableDefinition c.current.span.start c.advance).result.2.left < c.left :=
            Nat.lt_of_le_of_lt (variableDefinition c.current.span.start c.advance).le
              (Cursor.left_advance_lt hpos)
          exact (ih _ (hn ▸ hlt) hclean hd rfl).before (c.onward_advance.trans hfirst)
      · -- a missing dollar is reported
        rename_i hdollar
        have hmissing := (Cursor.onward_advance _).clean ((run_onward .variableList _).clean hclean)
        rw [Cursor.expect, if_neg hdollar] at hmissing
        exact absurd hmissing (Cursor.report_dirty _ _ _)

theorem readsVariable_of_operation {start : Nat} {kind : OperationKind}
    (hclean : (operation start kind c).result.2.diagnostics = [])
    (hd : d ∈ (operation start kind c).result.1.variableDefinitions) : ReadsVariable c d := by
  rw [operation_eq, operationBody_result] at hclean hd
  have hname : c.Onward (operationName? c).2 := by
    unfold operationName?
    split
    · exact onward_name c
    · exact .refl c
  refine ReadsVariable.before hname ?_
  have hlist := (run_onward .directives _).clean ((run_onward .selectionSet _).clean hclean)
  dsimp only at hd hlist
  rw [variableDefinitions_result] at hd hlist
  split at hlist
  · rename_i hparen
    rw [if_pos hparen] at hd
    exact (readsVariable_of_list ((Cursor.onward_expect _ _).clean hlist) hd).before (Cursor.onward_advance _)
  · rename_i hparen
    rw [if_neg hparen] at hd
    cases hd

theorem readsVariable_of_definitionOf {definition : OperationDefinition}
    (hsome : (definitionOf c c.kind).1 = some (.operation definition))
    (hclean : (definitionOf c c.kind).2.diagnostics = []) (hd : d ∈ definition.variableDefinitions) :
    ReadsVariable c d := by
  generalize c.kind = kind at hsome hclean
  fun_cases definitionOf c kind with
  | case1 =>
      cases hsome
      cases hd
  | case2 => cases hsome
  | case3 => cases hsome
  | case4 word =>
      rw [definitionOf] at hsome hclean
      unfold worded at hsome hclean
      cases hkind : operationKind? word with
      | some kind =>
          rw [hkind] at hsome hclean
          cases hsome
          exact (readsVariable_of_operation hclean hd).before c.onward_advance
      | none =>
          rw [hkind] at hsome
          dsimp only at hsome
          split at hsome
          · cases hsome
          · split at hsome <;> cases hsome
  | case5 =>
      rw [definitionOf] at hsome
      · cases hsome
      all_goals assumption

/-- Every variable of a document without mistakes is read among the tokens of the document. -/
theorem exists_readsVariable {source : String} (hclean : (parseDocument source).diagnostics = [])
    {definition : OperationDefinition} (hdefinition : definition ∈ (parseDocument source).document.operations)
    (hd : d ∈ definition.variableDefinitions) :
    ∃ c : Cursor, c.stream = tokenize source ∧ ReadsVariable c d := by
  obtain ⟨c, hstream, -, hdefinitions, hdiagnostics⟩ := parseDocument_eq source
  rw [hdiagnostics] at hclean
  obtain ⟨first, hmem, hfirst⟩ := List.mem_filterMap.1 hdefinition
  rw [hdefinitions] at hmem
  obtain ⟨e, honward, hsome, hclean'⟩ := exists_definitionOf hclean hmem
  cases first with
  | fragment f => cases hfirst
  | operation o =>
      cases hfirst
      exact ⟨c, hstream, (readsVariable_of_definitionOf hsome hclean' hd).before honward⟩

end Parser

variable {source : String}

/-- The tokens of the default of a variable: they stand in the document behind the name of the
variable, its type and an equals sign. -/
structure DefaultStretch (source : String) (d : VariableDefinition) (value : Literal) (part : List Token)
    (first last : Token) : Prop where
  tokens : ∃ pre word colon types equals post,
    tokenize source = pre ++ word :: colon :: (types ++ equals :: (part ++ post)) ∧ word.span = d.name.span ∧
    colon.kind = .mark .colon ∧ TypeTokens types d.type.bare ∧ equals.kind = .mark .equals
  literal : LiteralTokens part value.bare
  head : part.head? = some first
  getLast : part.getLast? = some last

/-- That the text of a default is what stands in the document from its first token to its last one,
and that it is read as the value by itself, each just if the value is one of those that are `kept`. -/
def DefaultSurvives (kept : Literal → Prop) (source : String) (d : VariableDefinition) (value : Literal)
    (text : String) : Prop :=
  ∃ part first last, DefaultStretch source d value part first last ∧
    (text = (Span.mk first.span.start last.span.stop).text source ↔ kept value) ∧
    (ReadsWhole (fun c => (Parser.literal c).result) Literal.bare text value ↔ kept value)

/-- That a variable is handed on as it is declared: the text of its type is read as the type, and the
text of its default, if it has one, as the default. -/
structure VariableDefinition.Survives (kept : Literal → Prop) (source : String) (d : VariableDefinition)
    (v : Variable) : Prop where
  name : v.name = d.name.text
  type : ReadsWhole (fun c => (Parser.typeExpr c).result) TypeExpr.bare v.type d.type
  default : Option.Rel (DefaultSurvives kept source d) d.default v.default

/-- The names of a document are words. -/
theorem word_of_mem_tokenize {t : Token} (ht : t ∈ tokenize source) (hname : t.kind.isName = true) :
    ∃ c taken, t.text.toList = c :: taken ∧ Lexer.Word c taken := by
  obtain ⟨pre, post, hsplit⟩ := List.append_of_mem ht
  have hvalid : t.kind ≠ .invalid := fun h => by rw [h] at hname; cases hname
  have hfinish : t.kind ≠ .finish := fun h => by rw [h] at hname; cases hname
  obtain ⟨before, c, rest, -, hkept, heq, -⟩ := Lexer.exists_of_tokensFrom hsplit hvalid hfinish
  obtain ⟨taken, htaken, hword⟩ := Lexer.word_of_isName hkept (by rw [heq] at hname; exact hname)
  exact ⟨c, taken, by rw [heq, String.toList_ofList, htaken], hword⟩

theorem Literal.exists_of_isVariable {value : Literal} (h : value.IsVariable) :
    ∃ name, value = .variable name := by
  cases value
  case «variable» name => exact ⟨name, rfl⟩
  all_goals exact h.elim

theorem Literal.ofName_ne_variable (written name : Name) (kind : TokenKind) :
    ofName written kind ≠ .variable name := by
  unfold ofName
  split <;> simp

/-- A name is not read as a variable. -/
theorem not_readsWhole_name {word : Token} (hword : word.kind.isName = true) {text : String}
    (halike : List.Forall₂ Token.Alike [word] (Cursor.ofText text).tokens) {value : Literal}
    (hvalue : value.IsVariable) :
    ¬ReadsWhole (fun c => (Parser.literal c).result) Literal.bare text value := by
  intro hreads
  generalize htokens : (Cursor.ofText text).tokens = tokens at halike
  obtain _ | @⟨_, t, _, rest, ht, hrest⟩ := halike
  have hname : (Cursor.ofText text).kind.isName = true := by
    rw [Cursor.kind_of_tokens htokens, firstKind_cons, ht.kind]
    exact hword
  have hread := hreads.value
  obtain ⟨name, rfl⟩ := Literal.exists_of_isVariable hvalue
  rw [Parser.literal_result, (Prod.mk.inj (Parser.literalOf_of_isName hname)).1] at hread
  exact Literal.ofName_ne_variable _ _ _ hread

theorem LiteralTokens.of_variable {part : List Token} {name : Name}
    (h : LiteralTokens part (.variable name)) :
    ∃ mark word : Token, part = [mark, word] ∧ word.kind.isName = true := by
  generalize hvalue : Literal.variable name = value at h
  cases h with
  | dollar hmark hname =>
      obtain ⟨hword⟩ := hname
      exact ⟨_, _, rfl, hword⟩
  | name hword => exact absurd hvalue.symm (Literal.ofName_ne_variable _ _ _)
  | _ => cases hvalue

section Defaults

variable {d : VariableDefinition} {e : Cursor} {part : List Token} {last : Token}
  {value : Literal} {next : Cursor}

/-- The mark of a variable is lost: its span is that of its name. -/
theorem not_readsWhole_variable {pre : List Token} (hstream : tokenize source = pre ++ e.stream)
    (h : Parser.Stands e value next part last) (hvariable : value.IsVariable) :
    ¬ReadsWhole (fun c => (Parser.literal c).result) Literal.bare (value.span.text source) value := by
  obtain ⟨name, rfl⟩ := Literal.exists_of_isVariable hvariable
  obtain ⟨mark, word, rfl, hword⟩ := h.literal.of_variable
  obtain rfl : word = last := Option.some.inj h.getLast
  have htokens : tokenize source = (pre ++ [mark]) ++ ([word] ++ (next.tokens ++ [Token.finish e.size])) := by
    rw [hstream, Cursor.stream, h.tokens]
    simp
  obtain ⟨-, halike⟩ := tokens_of_stretch htokens
    (fun t ht => h.literal.valid (List.mem_cons_of_mem _ ht)) rfl rfl
  rw [h.name name rfl]
  exact not_readsWhole_name hword halike trivial

theorem Parser.Stands.survives {pre : List Token} (hstream : tokenize source = pre ++ e.stream)
    (h : Parser.Stands e value next part last)
    (hstretch : DefaultStretch source d value part e.current last) :
    DefaultSurvives (fun value => ¬value.IsVariable) source d value (value.span.text source) := by
  have htokens : tokenize source = pre ++ (part ++ (next.tokens ++ [Token.finish e.size])) := by
    rw [hstream, Cursor.stream, h.tokens, List.append_assoc]
  obtain ⟨hle, halike⟩ := tokens_of_stretch htokens (fun t ht => h.literal.valid ht) h.head h.getLast
  have hexact := readsWhole_literal h.literal halike
  refine ⟨part, _, last, hstretch, ?_⟩
  by_cases hvariable : value.IsVariable
  · have hlost := not_readsWhole_variable hstream h hvariable
    exact ⟨⟨fun htext => absurd (htext ▸ hexact) hlost, fun h => absurd hvariable h⟩,
      ⟨fun hreads => absurd hreads hlost, fun h => absurd hvariable h⟩⟩
  · rw [h.span hvariable hle]
    exact ⟨⟨fun _ => hvariable, fun _ => rfl⟩, ⟨fun _ => hvariable, fun _ => hexact⟩⟩

end Defaults

/-- The type of a variable is spelt with names of the document. -/
theorem spelt_of_stretch {pre part post : List Token}
    (h : tokenize source = pre ++ (part ++ post)) {type : TypeExpr}
    (hpart : TypeTokens part type.bare) : type.Spelt :=
  TypeExpr.spelt_of_tokens hpart fun t ht hname => by
    have hmem : t ∈ tokenize source := by
      rw [h]
      exact List.mem_append_right _ (List.mem_append_left _ ht)
    exact word_of_mem_tokenize hmem hname

/-- A variable that is read without a mistake survives. -/
theorem survives_of_clean {start : Nat} {c : Cursor} {pre : List Token}
    (hstream : tokenize source = pre ++ c.stream)
    (hclean : (Parser.variableDefinition start c).result.2.diagnostics = []) :
    ((Parser.variableDefinition start c).result.1).Survives (fun value => ¬value.IsVariable) source
      ⟨(Parser.variableDefinition start c).result.1.name.text,
        (Parser.variableDefinition start c).result.1.type.text,
        (Parser.variableDefinition start c).result.1.default.map fun value => value.span.text source⟩ := by
  rw [Parser.variableDefinition_result] at hclean ⊢
  dsimp only at hclean ⊢
  have hdefault := (Parser.run_onward .directives _).clean hclean
  have htype := (Parser.run_onward .defaultLiteral _).clean hdefault
  have hcolon := (Parser.run_onward .typeExpr _).clean htype
  have hname := Parser.isName_of_clean ((Cursor.onward_expect _ _).clean hcolon)
  rw [Parser.name_of_isName hname] at hdefault htype hcolon ⊢
  dsimp only at hdefault htype hcolon ⊢
  obtain ⟨hkind, hexpect⟩ := Cursor.expect_eq_advance hcolon
  rw [hexpect] at hdefault htype ⊢
  -- the tokens of name, colon and type, with the cursor `e` behind them
  obtain ⟨types, htokens, htypes⟩ := (Parser.accepts_typeExpr _).sound htype
  have honward : c.advance.advance.Onward (Parser.typeExpr c.advance.advance).result.2 :=
    Parser.run_onward .typeExpr c.advance.advance
  generalize (Parser.typeExpr c.advance.advance).result.1 = type at htypes ⊢
  generalize (Parser.typeExpr c.advance.advance).result.2 = e at htokens honward hdefault ⊢
  have hsource : tokenize source = pre ++ c.current :: c.advance.current :: (types ++ e.stream) := by
    rw [hstream, Cursor.stream_eq_cons (TokenKind.ne_finish_of_isName hname),
      Cursor.stream_eq_cons (by rw [hkind]; simp), Cursor.stream, htokens, List.append_assoc, ← honward.size]
    rfl
  have hspelt : type.Spelt :=
    @spelt_of_stretch source (pre ++ [c.current, c.advance.current]) types e.stream
      (by rw [hsource]; simp) type htypes
  refine ⟨rfl, TypeExpr.readsWhole_text hspelt, ?_⟩
  dsimp only
  rw [Parser.defaultLiteral_result] at hdefault ⊢
  split
  · rename_i hat
    rw [if_pos hat] at hdefault
    have hequals := Cursor.kind_of_at? hat
    obtain ⟨part, last, hstands⟩ := Parser.exists_stands hdefault
    rw [Cursor.stream_eq_cons (by rw [hequals]; simp)] at hsource
    have hvalue : tokenize source =
        (pre ++ c.current :: c.advance.current :: (types ++ [e.current])) ++ e.advance.stream := by
      rw [hsource]
      simp
    rw [Cursor.stream, hstands.tokens, List.append_assoc] at hsource
    exact .some (hstands.survives hvalue ⟨⟨pre, _, _, types, _, _, hsource, rfl, hkind, htypes, hequals⟩,
      hstands.literal, hstands.head, hstands.getLast⟩)
  · exact .none

/-- **Variables survive as texts.** The type of a variable is handed on as a text that is read as
the type. Its default is handed on as it stands in the document, and is read as the same value,
unless it is a variable itself. -/
theorem variables_survive {graph : TypeGraph} {ops : List Operation} (h : bind graph source = .ok ops) :
    List.Forall₂ (fun (definition : OperationDefinition) (op : Operation) =>
        List.Forall₂ (VariableDefinition.Survives (fun value => ¬value.IsVariable) source)
          definition.variableDefinitions op.variableDefinitions)
      (parseDocument source).document.operations ops := by
  obtain ⟨hclean, hops⟩ := bind_eq_ok_iff.1 h
  have hmem := (List.forall₂_and_left (p := (· ∈ (parseDocument source).document.operations)) _ _).2
    ⟨fun _ h => h, hops⟩
  refine hmem.imp ?_
  rintro definition op ⟨hdefinition, used, hgives⟩
  rw [hgives.variableDefinitions, List.forall₂_map_right_iff, List.forall₂_same]
  intro d hd
  obtain ⟨c, hstream, start, e, honward, rfl, hread⟩ := Parser.exists_readsVariable hclean hdefinition hd
  obtain ⟨pre, hpre⟩ := honward.stream
  exact survives_of_clean (by rw [← hstream, hpre]) hread

/-- The operation that asks for the ids of a feed. -/
def feedIds (variableDefinitions : List Variable) (source : String) : Operation where
  name := "Feed"
  kind := .query
  rootType := "Query"
  selection := .mk "Query"
    [("feed", .mk "feed" "feed" (some (.mk "Node" [("id", .mk "id" "id" none)] false [])))] false []
  variableDefinitions := variableDefinitions
  source := source

/-- Variables of nested types with defaults of several kinds. -/
def pagedDocument : String :=
  "query Feed($ids: [[ID!]!] = [ [\"a\", $b] ], $size: Int! = -5, $by: Order = \x7b at: TIME \x7d, $id: ID)
\x7b feed \x7b id \x7d \x7d"

def pagedOperation : Operation :=
  feedIds [⟨"ids", "[[ID!]!]", some "[ [\"a\", $b] ]"⟩, ⟨"size", "Int!", some "-5"⟩,
    ⟨"by", "Order", some "\x7b at: TIME \x7d"⟩, ⟨"id", "ID", none⟩] pagedDocument

theorem bind_pagedDocument : bind feedGraph pagedDocument = .ok [pagedOperation] := by cbv

theorem variables_survive_pagedDocument : bind feedGraph pagedDocument = .ok [pagedOperation] ∧
    List.Forall₂ (fun (definition : OperationDefinition) (op : Operation) =>
        List.Forall₂ (VariableDefinition.Survives (fun value => ¬value.IsVariable) pagedDocument)
          definition.variableDefinitions op.variableDefinitions)
      (parseDocument pagedDocument).document.operations [pagedOperation] :=
  ⟨bind_pagedDocument, variables_survive bind_pagedDocument⟩

/-- A variable with a variable as its default. -/
def chainedDocument : String := "query Feed($a: Int = $b) \x7b feed \x7b id \x7d \x7d"

def chainedOperation : Operation := feedIds [⟨"a", "Int", some "b"⟩] chainedDocument

theorem bind_chainedDocument : bind feedGraph chainedDocument = .ok [chainedOperation] := by cbv

/-- Not every default survives: a variable is handed on without its mark, and is read as a name then. -/
theorem not_variables_survive : ¬∀ (graph : TypeGraph) (source : String) (ops : List Operation),
    bind graph source = .ok ops → List.Forall₂ (fun (definition : OperationDefinition) (op : Operation) =>
        List.Forall₂ (VariableDefinition.Survives (fun _ => True) source)
          definition.variableDefinitions op.variableDefinitions)
      (parseDocument source).document.operations ops := by
  intro h
  have hdeclared : (parseDocument chainedDocument).document.operations.map (·.variableDefinitions) =
      [[⟨⟨"a", ⟨12, 13⟩⟩, .named ⟨"Int", ⟨15, 18⟩⟩, some (.variable ⟨"b", ⟨22, 23⟩⟩), ⟨11, 23⟩⟩]] := by cbv
  obtain ⟨definition, hoperations, hdefinition⟩ := List.map_eq_singleton_iff.1 hdeclared
  have hsurvives := h _ _ _ bind_chainedDocument
  rw [hoperations] at hsurvives
  obtain _ | ⟨hvariables, -⟩ := hsurvives
  rw [hdefinition] at hvariables
  obtain _ | ⟨hvariable, -⟩ := hvariables
  obtain ⟨_, _, _, -, -, hreads⟩ | _ := hvariable.default
  have hvalue := (hreads.2 trivial).value
  have hread : (Parser.literal (.ofText "b")).result.1.bare = .enum ⟨"b", .none⟩ := by
    rw [Parser.literal_result]
    cbv
  cases hread.symm.trans hvalue

end GraphClient
