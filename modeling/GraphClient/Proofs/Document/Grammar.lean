import GraphClient.Proofs.Document.Bare
import Mathlib.Algebra.Group.Int.Defs

/-! The grammar of query documents. A production relates the tokens of a part of a document to the tree
that they are written for, without places (`bare`). Nothing here speaks of how a document is read. -/

namespace GraphClient

/-- The name that a token spells. -/
def Token.name (t : Token) : Name := ⟨t.text, .none⟩

/-- The whole number that the text of a token writes. -/
def Token.whole (t : Token) : Int :=
  if (LiteralText.splitSign t.text.toList).1 then
    -(Text.ofDigits (LiteralText.splitSign t.text.toList).2 : Int)
  else Text.ofDigits (LiteralText.splitSign t.text.toList).2

/-- What a name of a kind stands for as a value: three words are constants. -/
def Literal.ofName (name : Name) : TokenKind → Literal
  | .keyword .true => .boolean true .none
  | .keyword .false => .boolean false .none
  | .keyword .null => .null .none
  | _ => .enum name

def OperationKind.keyword : OperationKind → Keyword
  | .query => .query
  | .mutation => .mutation
  | .subscription => .subscription

theorem OperationKind.keyword_injective : Function.Injective OperationKind.keyword := by
  intro kind kind' h
  cases kind <;> cases kind' <;> first | rfl | cases h

section

variable {α : Type}

/-- Any number of parts, one behind the other. -/
inductive ManyTokens (P : List Token → α → Prop) : List Token → List α → Prop
  | nil : ManyTokens P [] []
  | cons {part parts value values} (hfirst : P part value) (hrest : ManyTokens P parts values) :
      ManyTokens P (part ++ parts) (value :: values)

/-- A part that may be left out. -/
inductive MaybeTokens (P : List Token → α → Prop) : List Token → Option α → Prop
  | none : MaybeTokens P [] none
  | some {part value} (h : P part value) : MaybeTokens P part (some value)

/-- Any number of parts in parentheses, which may be left out. -/
inductive ParenTokens (P : List Token → α → Prop) : List Token → List α → Prop
  | none : ParenTokens P [] []
  | some {opening closing parts values} (hopening : opening.kind = .mark .openParen)
      (h : ManyTokens P parts values) (hclosing : closing.kind = .mark .closeParen) :
      ParenTokens P (opening :: (parts ++ [closing])) values

end

/-- A name; any word of the grammar is one. -/
inductive NameTokens : List Token → Name → Prop
  | mk {word} (hword : word.kind.isName = true) : NameTokens [word] word.name

/-- A name other than `on`. -/
inductive OtherNameTokens : List Token → Name → Prop
  | mk {word} (hword : word.kind.isName = true) (hon : word.kind ≠ .keyword .on) :
      OtherNameTokens [word] word.name

mutual

/-- A value. A whole number is one of 64 bits. -/
inductive LiteralTokens : List Token → Literal → Prop
  | dollar {mark part name} (hmark : mark.kind = .mark .dollar) (hname : NameTokens part name) :
      LiteralTokens (mark :: part) (.variable name)
  | int {t} (hkind : t.kind = .int) (hleast : -2 ^ 63 ≤ t.whole) (hmost : t.whole < 2 ^ 63) :
      LiteralTokens [t] (.int t.whole .none)
  | float {t} (hkind : t.kind = .float) : LiteralTokens [t] (.float (LiteralText.float t.text) .none)
  | string {t} (hkind : t.kind = .string) : LiteralTokens [t] (.string (LiteralText.quoted t.text) .none)
  | blockString {t} (hkind : t.kind = .blockString) :
      LiteralTokens [t] (.string (LiteralText.block t.text) .none)
  | name {word} (hword : word.kind.isName = true) : LiteralTokens [word] (.ofName word.name word.kind)
  | list {opening closing parts items} (hopening : opening.kind = .mark .openBracket)
      (hitems : ManyTokens LiteralTokens parts items) (hclosing : closing.kind = .mark .closeBracket) :
      LiteralTokens (opening :: (parts ++ [closing])) (.list items .none)
  | object {opening closing parts fields} (hopening : opening.kind = .mark .openBrace)
      (hfields : ManyTokens FieldTokens parts fields) (hclosing : closing.kind = .mark .closeBrace) :
      LiteralTokens (opening :: (parts ++ [closing])) (.object fields .none)

/-- A field of an object. -/
inductive FieldTokens : List Token → Name × Literal → Prop
  | mk {word name colon part value} (hname : NameTokens word name) (hcolon : colon.kind = .mark .colon)
      (hvalue : LiteralTokens part value) : FieldTokens (word ++ colon :: part) (name, value)

end

mutual

/-- A type without the bang behind it. -/
inductive InnerTokens : List Token → TypeExpr → Prop
  | named {part name} (hname : NameTokens part name) : InnerTokens part (.named name)
  | list {opening closing part item} (hopening : opening.kind = .mark .openBracket)
      (hitem : TypeTokens part item) (hclosing : closing.kind = .mark .closeBracket) :
      InnerTokens (opening :: (part ++ [closing])) (.list item .none)

/-- A type. -/
inductive TypeTokens : List Token → TypeExpr → Prop
  | plain {part type} (hinner : InnerTokens part type) : TypeTokens part type
  | bang {part type mark} (hinner : InnerTokens part type) (hmark : mark.kind = .mark .bang) :
      TypeTokens (part ++ [mark]) (.nonNull type .none)

end

inductive ArgumentTokens : List Token → Argument → Prop
  | mk {word name colon part value} (hname : NameTokens word name) (hcolon : colon.kind = .mark .colon)
      (hvalue : LiteralTokens part value) : ArgumentTokens (word ++ colon :: part) ⟨name, value, .none⟩

inductive DirectiveTokens : List Token → Directive → Prop
  | mk {mark word name part arguments} (hmark : mark.kind = .mark .atSign) (hname : NameTokens word name)
      (harguments : ParenTokens ArgumentTokens part arguments) :
      DirectiveTokens (mark :: (word ++ part)) ⟨name, arguments, .none⟩

/-- The name of a field, with a key before it or without one. -/
inductive KeyedTokens : List Token → Option Name × Name → Prop
  | plain {part name} (hname : NameTokens part name) : KeyedTokens part (none, name)
  | keyed {word key colon part name} (hkey : NameTokens word key) (hcolon : colon.kind = .mark .colon)
      (hname : NameTokens part name) : KeyedTokens (word ++ colon :: part) (some key, name)

mutual

/-- One thing that is asked for. -/
inductive SelectionTokens : List Token → Selection → Prop
  | inlineOn {dots on part condition marks directives parts set} (hdots : dots.kind = .mark .spread)
      (hon : on.kind = .keyword .on) (hname : NameTokens part condition)
      (hdirectives : ManyTokens DirectiveTokens marks directives) (hset : SetTokens parts set) :
      SelectionTokens (dots :: on :: (part ++ (marks ++ parts)))
        (.inline (some condition) directives set .none)
  | inline {dots marks directives parts set} (hdots : dots.kind = .mark .spread)
      (hdirectives : ManyTokens DirectiveTokens marks directives) (hset : SetTokens parts set) :
      SelectionTokens (dots :: (marks ++ parts)) (.inline none directives set .none)
  | spread {dots part name marks directives} (hdots : dots.kind = .mark .spread)
      (hname : OtherNameTokens part name)
      (hdirectives : ManyTokens DirectiveTokens marks directives) :
      SelectionTokens (dots :: (part ++ marks)) (.spread name directives .none)
  | field {part key name parens arguments marks directives parts set} (hkeyed : KeyedTokens part (key, name))
      (harguments : ParenTokens ArgumentTokens parens arguments)
      (hdirectives : ManyTokens DirectiveTokens marks directives) (hset : MaybeTokens SetTokens parts set) :
      SelectionTokens (part ++ (parens ++ (marks ++ parts))) (.field key name arguments directives set .none)

/-- A selection set, which asks for something. -/
inductive SetTokens : List Token → SelectionSet → Prop
  | mk {opening closing parts selections} (hopening : opening.kind = .mark .openBrace)
      (hselections : ManyTokens SelectionTokens parts selections) (hnonempty : selections ≠ [])
      (hclosing : closing.kind = .mark .closeBrace) :
      SetTokens (opening :: (parts ++ [closing])) (.mk selections .none)

end

/-- The default of a variable. -/
inductive DefaultTokens : List Token → Literal → Prop
  | mk {equals part value} (hequals : equals.kind = .mark .equals) (hvalue : LiteralTokens part value) :
      DefaultTokens (equals :: part) value

/-- The definition of a variable. Its directives mean nothing. -/
inductive VariableTokens : List Token → VariableDefinition → Prop
  | mk {mark word name colon part type parts default marks directives} (hmark : mark.kind = .mark .dollar)
      (hname : NameTokens word name) (hcolon : colon.kind = .mark .colon) (htype : TypeTokens part type)
      (hdefault : MaybeTokens DefaultTokens parts default)
      (hdirectives : ManyTokens DirectiveTokens marks directives) :
      VariableTokens (mark :: (word ++ colon :: (part ++ (parts ++ marks)))) ⟨name, type, default, .none⟩

inductive OperationTokens : List Token → OperationDefinition → Prop
  | set {parts set} (hset : SetTokens parts set) : OperationTokens parts ⟨.query, none, [], [], set, .none⟩
  | keyword {word kind part name parens definitions marks directives parts set}
      (hword : word.kind = .keyword (OperationKind.keyword kind))
      (hname : MaybeTokens OtherNameTokens part name)
      (hdefinitions : ParenTokens VariableTokens parens definitions)
      (hdirectives : ManyTokens DirectiveTokens marks directives) (hset : SetTokens parts set) :
      OperationTokens (word :: (part ++ (parens ++ (marks ++ parts)))) ⟨kind, name, definitions,
        directives, set, .none⟩

inductive FragmentTokens : List Token → FragmentDefinition → Prop
  | mk {word part name on part' condition marks directives parts set} (hword : word.kind = .keyword .fragment)
      (hname : NameTokens part name) (hon : on.kind = .keyword .on) (hcondition : NameTokens part' condition)
      (hdirectives : ManyTokens DirectiveTokens marks directives) (hset : SetTokens parts set) :
      FragmentTokens (word :: (part ++ on :: (part' ++ (marks ++ parts)))) ⟨name, condition,
        directives, set, .none⟩

/-- What stands in a document: a definition, or a string, which defines nothing. -/
inductive DefinitionTokens : List Token → Option Definition → Prop
  | string {t} (hkind : t.kind = .string ∨ t.kind = .blockString) : DefinitionTokens [t] none
  | operation {part definition} (h : OperationTokens part definition) :
      DefinitionTokens part (some (.operation definition))
  | fragment {part definition} (h : FragmentTokens part definition) :
      DefinitionTokens part (some (.fragment definition))

/-- A document. -/
inductive DocumentTokens : List Token → List Definition → Prop
  | nil : DocumentTokens [] []
  | cons {part parts first definitions} (hfirst : DefinitionTokens part first)
      (hrest : DocumentTokens parts definitions) :
      DocumentTokens (part ++ parts) (first.toList ++ definitions)

theorem TokenKind.ne_of_isName {kind : TokenKind} {mark : Mark} (h : kind.isName = true) :
    kind ≠ .mark mark := fun hkind => by
  rw [hkind] at h
  cases h

theorem TokenKind.ne_finish_of_isName {kind : TokenKind} (h : kind.isName = true) :
    kind ≠ .finish := fun hkind => by
  rw [hkind] at h
  cases h

theorem LiteralTokens.starts {part : List Token} {value : Literal} (h : LiteralTokens part value) :
    ∃ t ts, part = t :: ts ∧ t.kind ≠ .mark .closeBracket := by
  cases h with
  | name hword => exact ⟨_, _, rfl, TokenKind.ne_of_isName hword⟩
  | _ => exact ⟨_, _, rfl, by simp [*]⟩

theorem FieldTokens.starts {part : List Token} {field : Name × Literal} (h : FieldTokens part field) :
    ∃ t ts, part = t :: ts ∧ t.kind.isName = true := by
  obtain ⟨⟨hword⟩, -, -⟩ := h
  exact ⟨_, _, rfl, hword⟩

theorem ArgumentTokens.starts {part : List Token} {argument : Argument} (h : ArgumentTokens part argument) :
    ∃ t ts, part = t :: ts ∧ t.kind.isName = true := by
  obtain ⟨⟨hword⟩, -, -⟩ := h
  exact ⟨_, _, rfl, hword⟩

theorem DirectiveTokens.starts {part : List Token} {directive : Directive}
    (h : DirectiveTokens part directive) :
    ∃ t ts, part = t :: ts ∧ t.kind = .mark .atSign := by
  obtain ⟨hmark, -, -⟩ := h
  exact ⟨_, _, rfl, hmark⟩

theorem SetTokens.starts {parts : List Token} {set : SelectionSet} (h : SetTokens parts set) :
    ∃ t ts, parts = t :: ts ∧ t.kind = .mark .openBrace := by
  obtain ⟨hopening, -, -, -⟩ := h
  exact ⟨_, _, rfl, hopening⟩

theorem DefinitionTokens.ne_nil {part : List Token} {first : Option Definition}
    (h : DefinitionTokens part first) :
    part ≠ [] := by
  cases h with
  | string => nofun
  | operation h =>
      cases h with
      | set hset =>
          obtain ⟨t, ts, rfl, -⟩ := hset.starts
          nofun
      | keyword => nofun
  | fragment h =>
      cases h
      nofun

end GraphClient
