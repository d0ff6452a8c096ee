import GraphClient.Proofs.Document.Grammar
import Mathlib

/-! Parentheses and braces in documents. Whatever the grammar derives opens and closes them in pairs,
one within or behind the other (`balanced_document`). -/

namespace GraphClient

/-- That a token of a kind is neither a parenthesis nor a brace. -/
def TokenKind.isFlat : TokenKind → Bool
  | .mark .openParen | .mark .closeParen | .mark .openBrace | .mark .closeBrace => false
  | _ => true

theorem TokenKind.isFlat_of_isName {kind : TokenKind} (h : kind.isName = true) : kind.isFlat = true := by
  cases kind with
  | mark => cases h
  | _ => rfl

/-- Tokens whose parentheses and braces close in pairs. -/
inductive Balanced : List Token → Prop
  | nil : Balanced []
  | flat {t} (h : t.kind.isFlat = true) : Balanced [t]
  | append {part part'} (h : Balanced part) (h' : Balanced part') : Balanced (part ++ part')
  | parens {opening closing part} (hopening : opening.kind = .mark .openParen) (h : Balanced part)
      (hclosing : closing.kind = .mark .closeParen) : Balanced (opening :: (part ++ [closing]))
  | braces {opening closing part} (hopening : opening.kind = .mark .openBrace) (h : Balanced part)
      (hclosing : closing.kind = .mark .closeBrace) : Balanced (opening :: (part ++ [closing]))

/-- How many more parentheses some tokens open than they close. -/
def openParens (tokens : List Token) : Int :=
  (tokens.map fun t => if t.kind = .mark .openParen then 1 else if t.kind =
    .mark .closeParen then -1 else 0).sum

@[simp] theorem openParens_nil : openParens [] = 0 := rfl

@[simp] theorem openParens_cons (t : Token) (ts : List Token) : openParens (t :: ts) =
    (if t.kind = .mark .openParen then 1 else if t.kind = .mark .closeParen then -1 else 0) +
      openParens ts := by
  rw [openParens, List.map_cons, List.sum_cons, openParens]

@[simp] theorem openParens_append (ts ts' : List Token) :
    openParens (ts ++ ts') = openParens ts + openParens ts' := by
  rw [openParens, List.map_append, List.sum_append, openParens, openParens]

namespace Balanced

variable {t : Token} {part parts : List Token}

theorem cons (h : t.kind.isFlat = true) (hpart : Balanced part) : Balanced (t :: part) :=
  append (flat h) hpart

theorem cons_of (kind : TokenKind) (h : t.kind = kind) (hkind : kind.isFlat = true) (hpart : Balanced part) :
    Balanced (t :: part) := cons (h ▸ hkind) hpart

/-- As many parentheses are closed as are opened. -/
theorem openParens_eq (h : Balanced part) : openParens part = 0 := by
  induction h with
  | nil => rfl
  | @flat t h =>
      have hopen : t.kind ≠ .mark .openParen := fun hkind => by rw [hkind] at h; cases h
      have hclose : t.kind ≠ .mark .closeParen := fun hkind => by rw [hkind] at h; cases h
      simp [hopen, hclose]
  | append _ _ ih ih' => rw [openParens_append, ih, ih', add_zero]
  | parens hopening _ hclosing ih => simp [hopening, hclosing, ih]
  | braces hopening _ hclosing ih => simp [hopening, hclosing, ih]

section

variable {α : Type} {P : List Token → α → Prop}

theorem many {values : List α} (h : ManyTokens P parts values)
    (hP : ∀ part value, part.length ≤ parts.length → P part value → Balanced part) : Balanced parts := by
  induction h with
  | nil => exact .nil
  | @cons part parts _ _ hfirst _ ih =>
      have hle : ∀ n, n ≤ parts.length → n ≤ (part ++ parts).length := fun n hn => by
        rw [List.length_append]
        omega
      refine .append (hP _ _ ?_ hfirst) (ih fun part value hlength => hP part value (hle _ hlength))
      rw [List.length_append]
      omega

theorem maybe {value : Option α} (h : MaybeTokens P part value) (hP : ∀ value, P part value → Balanced part) :
    Balanced part := by
  cases h with
  | none => exact .nil
  | some h => exact hP _ h

theorem paren {values : List α} (h : ParenTokens P part values)
    (hP : ∀ part value, P part value → Balanced part) : Balanced part := by
  cases h with
  | none => exact .nil
  | some hopening h hclosing => exact .parens hopening (many h fun part value _ => hP part value) hclosing

end

theorem name {name : Name} (h : NameTokens part name) : Balanced part := by
  obtain ⟨hword⟩ := h
  exact .flat (TokenKind.isFlat_of_isName hword)

theorem otherName {name : Name} (h : OtherNameTokens part name) : Balanced part := by
  obtain ⟨hword, -⟩ := h
  exact .flat (TokenKind.isFlat_of_isName hword)

theorem literal {value : Literal} (h : LiteralTokens part value) : Balanced part := by
  induction hn : part.length using Nat.strongRecOn generalizing part value with
  | ind n ih =>
      cases h with
      | dollar hmark hname => exact .cons_of _ hmark rfl (.name hname)
      | int hkind => exact .flat (hkind ▸ rfl)
      | float hkind => exact .flat (hkind ▸ rfl)
      | string hkind => exact .flat (hkind ▸ rfl)
      | blockString hkind => exact .flat (hkind ▸ rfl)
      | name hword => exact .flat (TokenKind.isFlat_of_isName hword)
      | @list opening closing parts items hopening hitems hclosing =>
          refine .cons_of _ hopening rfl (.append (many hitems fun part value hle h => ih _ ?_ h rfl) ?_)
          · rw [← hn, List.length_cons, List.length_append]
            omega
          · exact .cons_of _ hclosing rfl .nil
      | @object opening closing parts fields hopening hfields hclosing =>
          refine .braces hopening (many hfields fun part field hle h => ?_) hclosing
          obtain ⟨hname, hcolon, hvalue⟩ := h
          refine .append (.name hname) (.cons_of _ hcolon rfl (ih _ ?_ hvalue rfl))
          rw [List.length_append, List.length_cons] at hle
          rw [← hn, List.length_cons, List.length_append]
          omega

theorem type {type : TypeExpr} (h : TypeTokens part type) : Balanced part := by
  induction hn : part.length using Nat.strongRecOn generalizing part type with
  | ind n ih =>
      have hinner : ∀ {part type}, part.length ≤ n → InnerTokens part type → Balanced part := by
        intro part type hle h
        cases h with
        | named hname => exact .name hname
        | list hopening hitem hclosing =>
            refine .cons_of _ hopening rfl (.append (ih _ ?_ hitem rfl) (.cons_of _ hclosing rfl .nil))
            rw [List.length_cons, List.length_append] at hle
            omega
      cases h with
      | plain h => exact hinner (Nat.le_of_eq hn) h
      | bang h hmark =>
          rw [List.length_append] at hn
          exact .append (hinner (by omega) h) (.cons_of _ hmark rfl .nil)

theorem argument {argument : Argument} (h : ArgumentTokens part argument) : Balanced part := by
  obtain ⟨hname, hcolon, hvalue⟩ := h
  exact .append (.name hname) (.cons_of _ hcolon rfl (.literal hvalue))

theorem directive {directive : Directive} (h : DirectiveTokens part directive) : Balanced part := by
  obtain ⟨hmark, hname, harguments⟩ := h
  exact .cons_of _ hmark rfl (.append (.name hname) (.paren harguments fun _ _ => .argument))

theorem directives {directives : List Directive} (h : ManyTokens DirectiveTokens part directives) :
    Balanced part :=
  .many h fun _ _ _ => .directive

theorem keyed {key : Option Name × Name} (h : KeyedTokens part key) : Balanced part := by
  cases h with
  | plain hname => exact .name hname
  | keyed hkey hcolon hname => exact .append (.name hkey) (.cons_of _ hcolon rfl (.name hname))

/-- A selection is balanced if the sets within it are. -/
theorem selection_of {selection : Selection}
    (hset : ∀ {inner set}, inner.length ≤ part.length → SetTokens inner set →
    Balanced inner) (h : SelectionTokens part selection) : Balanced part := by
  cases h with
  | inlineOn hdots hon hname hdirectives h =>
      refine .cons_of _ hdots rfl
        (.cons_of _ hon rfl (.append (.name hname) (.append (.directives hdirectives) ?_)))
      exact hset (by simp only [List.length_cons, List.length_append]; omega) h
  | inline hdots hdirectives h =>
      refine .cons_of _ hdots rfl (.append (.directives hdirectives) (hset ?_ h))
      simp only [List.length_cons, List.length_append]
      omega
  | spread hdots hname hdirectives =>
      exact .cons_of _ hdots rfl (.append (.otherName hname) (.directives hdirectives))
  | field hkeyed harguments hdirectives h =>
      refine .append (.keyed hkeyed) (.append (.paren harguments fun _ _ => .argument)
        (.append (.directives hdirectives) (.maybe h fun _ h => hset ?_ h)))
      simp only [List.length_append]
      omega

theorem set {set : SelectionSet} (h : SetTokens part set) : Balanced part := by
  induction hn : part.length using Nat.strongRecOn generalizing part set with
  | ind n ih =>
      obtain ⟨hopening, hselections, -, hclosing⟩ := h
      refine .braces hopening (many hselections fun part selection hle h => ?_) hclosing
      refine selection_of (fun hle' h => ih _ ?_ h rfl) h
      rw [← hn, List.length_cons, List.length_append]
      omega

theorem selections {list : List Selection} (h : ManyTokens SelectionTokens part list) : Balanced part :=
  many h fun _ _ _ => selection_of fun _ => .set

theorem variableDefinition {definition : VariableDefinition} (h : VariableTokens part definition) :
    Balanced part := by
  obtain ⟨hmark, hname, hcolon, htype, hdefault, hdirectives⟩ := h
  refine .cons_of _ hmark rfl
    (.append (.name hname) (.cons_of _ hcolon rfl (.append (.type htype) (.append ?_ ?_))))
  · refine .maybe hdefault fun value h => ?_
    obtain ⟨hequals, hvalue⟩ := h
    exact .cons_of _ hequals rfl (.literal hvalue)
  · exact .directives hdirectives

theorem definition {first : Option Definition} (h : DefinitionTokens part first) : Balanced part := by
  cases h with
  | string hkind =>
      refine .flat ?_
      rcases hkind with hkind | hkind <;> rw [hkind] <;> rfl
  | operation h =>
      cases h with
      | set h => exact .set h
      | keyword hword hname hdefinitions hdirectives h =>
          exact .cons_of _ hword rfl (.append (.maybe hname fun _ => .otherName)
            (.append (.paren hdefinitions fun _ _ => .variableDefinition)
              (.append (.directives hdirectives) (.set h))))
  | fragment h =>
      obtain ⟨hword, hname, hon, hcondition, hdirectives, h⟩ := h
      exact .cons_of _ hword rfl (.append (.name hname)
        (.cons_of _ hon rfl (.append (.name hcondition) (.append (.directives hdirectives) (.set h)))))

/-- **A document closes what it opens.** -/
theorem document {list : List Definition} (h : DocumentTokens part list) : Balanced part := by
  induction h with
  | nil => exact .nil
  | cons hfirst _ ih => exact .append (.definition hfirst) ih

end Balanced

end GraphClient
