import GraphClient.Proofs.Document.Definitions

/-! The calls that reading is made of. A function of the reader does nothing by itself but look at the
current token, take tokens and report mistakes; all else it leaves to calls. Its `body` says so
without recursion: it is a script of calls, each from a cursor, that goes on with what a call gives.
Run with the functions of the reader it gives what the function gives (`body_run`), and a call is
evaluated by evaluating the calls of its body in turn, as deep as the fuel allows (`evaluate`). -/

namespace GraphClient

/-- The tokens from a cursor up to one that has fewer of them left. -/
def Cursor.upTo (c d : Cursor) : List Token := c.tokens.take (c.left - d.left)

namespace Parser

/-- A function of the reader, with its arguments except for the cursor. -/
inductive Call
  | definitions
  | definition
  | skipDefinition (depth : Nat)
  | operation (start : Nat) (kind : OperationKind)
  | operationBody (start : Nat) (kind : OperationKind) (target : Option Name)
  | fragment (start : Nat)
  | variableDefinitions
  | variableList
  | variableDefinition (start : Nat)
  | defaultLiteral
  | typeExpr
  | selectionSet
  | openedSet (start : Nat)
  | selections
  | selection
  | arguments
  | argumentList
  | directives
  | literal
  | literalList
  | literalFields

namespace Call

/-- What a function reads. -/
@[reducible] def Value : Call → Type
  | definitions => List Definition
  | definition => Option Definition
  | skipDefinition _ => Unit
  | operation _ _ => OperationDefinition
  | operationBody _ _ _ => OperationDefinition
  | fragment _ => FragmentDefinition
  | variableDefinitions => List VariableDefinition
  | variableList => List VariableDefinition
  | variableDefinition _ => VariableDefinition
  | defaultLiteral => Option Literal
  | typeExpr => TypeExpr
  | selectionSet => SelectionSet
  | openedSet _ => SelectionSet
  | selections => List Selection
  | selection => Option Selection
  | arguments => List Argument
  | argumentList => List Argument
  | directives => List Directive
  | literal => Literal
  | literalList => List Literal
  | literalFields => List (Name × Literal)

/-- What the reader gives for a call. -/
def run : (f : Call) → Cursor → f.Value × Cursor
  | definitions, c => (Parser.definitions c).result
  | definition, c => definitionOf c c.kind
  | skipDefinition depth, c => (Parser.skipDefinition depth c).result
  | operation start kind, c => (Parser.operation start kind c).result
  | operationBody start kind target, c => (Parser.operationBody start kind target c).result
  | fragment start, c => (Parser.fragment start c).result
  | variableDefinitions, c => (Parser.variableDefinitions c).result
  | variableList, c => (Parser.variableList c).result
  | variableDefinition start, c => (Parser.variableDefinition start c).result
  | defaultLiteral, c => (Parser.defaultLiteral c).result
  | typeExpr, c => (Parser.typeExpr c).result
  | selectionSet, c => (Parser.selectionSet c).result
  | openedSet start, c => (Parser.openedSet start c).result
  | selections, c => (Parser.selections c).result
  | selection, c => (Parser.selection c).result
  | arguments, c => (Parser.arguments c).result
  | argumentList, c => (Parser.argumentList c).result
  | directives, c => (Parser.directives c).result
  | literal, c => (Parser.literal c).result
  | literalList, c => (Parser.literalList c).result
  | literalFields, c => (Parser.literalFields c).result

/-- The functions that repeat something: they call themselves for what is left to
repeat, and end where nothing is. -/
def isLoop : Call → Bool
  | definitions | skipDefinition _ | variableList | selections | argumentList | directives | literalList
  | literalFields => true
  | _ => false

end Call

/-- What a function does: it is over with a value at a cursor, or it calls a function from a cursor
and goes on from what the call gives. -/
inductive Script (β : Type)
  | done (value : β) (c : Cursor)
  | call (f : Call) (c : Cursor) (next : f.Value → Cursor → Script β)

namespace Script

variable {β : Type}

/-- What a script comes to when the reader answers its calls. -/
def run : Script β → β × Cursor
  | done value c => (value, c)
  | call f c next => (next (f.run c).1 (f.run c).2).run

/-- The calls that a script makes then. -/
def calls : Script β → List (Call × Cursor)
  | done _ _ => []
  | call f c next => (f, c) :: (next (f.run c).1 (f.run c).2).calls

/-- What a script comes to from a cursor when its calls are answered in another way, if all of them
are: its value, where it ends, and the tokens that were taken in turn. -/
def answer (oracle : (f : Call) → Cursor → Option (f.Value × Cursor × List Token)) :
    Cursor → Script β → Option (β × Cursor × List Token)
  | here, done value c => some (value, c, here.upTo c)
  | here, call f c next => do
      let (value, d, taken) ← oracle f c
      let (result, e, rest) ← (next value d).answer oracle d
      some (result, e, here.upTo c ++ taken ++ rest)

end Script

/-- The definition that a keyword starts. -/
def wordedBody (c : Cursor) (word : Keyword) : Script (Option Definition) :=
  match operationKind? word with
  | some kind =>
      .call (.operation c.current.span.start kind) c.advance fun operation c₁ =>
        .done (some (.operation operation)) c₁
  | none =>
      if word = .fragment then
        .call (.fragment c.current.span.start) c.advance fun fragment c₁ =>
          .done (some (.fragment fragment)) c₁
      else if word.startsTypeSystem then
        .call (.skipDefinition 0) (c.report (.typeSystem word) c.current.span).advance fun _ c₁ =>
          .done none c₁
      else .done none (c.missing .definition).advance

/-- The definition that a token of a kind starts. -/
def definitionBody (c : Cursor) : TokenKind → Script (Option Definition)
  | .mark .openBrace =>
      .call (.openedSet c.current.span.start) c.advance fun set c₁ =>
        .done (some (.operation ⟨.query, none, [], [], set, c₁.spanFrom c.current.span.start⟩)) c₁
  | .string | .blockString => .done none c.advance
  | .keyword word => wordedBody c word
  | _ => .done none (c.missing .definition).advance

/-- The literal that a token of a kind starts. -/
def literalBody (c : Cursor) : TokenKind → Script Literal
  | .mark .openBracket =>
      .call .literalList c.advance fun items c₁ =>
        let c₂ := c₁.expect (.mark .closeBracket)
        .done (.list items (c₂.spanFrom c.current.span.start)) c₂
  | .mark .openBrace =>
      .call .literalFields c.advance fun fields c₁ =>
        let c₂ := c₁.expect (.mark .closeBrace)
        .done (.object fields (c₂.spanFrom c.current.span.start)) c₂
  | kind => .done (literalOf c kind).1 (literalOf c kind).2

/-- A type, once it is known what stands in front of the bang. -/
def bangBody (start : Nat) (type : TypeExpr) (c : Cursor) : Script TypeExpr :=
  if c.at? (.mark .bang) then .done (.nonNull type (c.advance.spanFrom start)) c.advance else .done type c

/-- What a spread asks for, from behind its dots, which stand at `start`. -/
def spreadBody (start : Nat) (c : Cursor) : Script (Option Selection) :=
  if c.at? (.keyword .on) then
    let condition := (name c.advance).result
    .call .directives condition.2 fun marks c₁ =>
      .call .selectionSet c₁ fun set c₂ => .done (some (.inline condition.1 marks set (c₂.spanFrom start))) c₂
  else if c.at? (.mark .openBrace) || c.at? (.mark .atSign) then
    .call .directives c fun marks c₁ =>
      .call .selectionSet c₁ fun set c₂ => .done (some (.inline none marks set (c₂.spanFrom start))) c₂
  else
    let target := (name c).result
    .call .directives target.2 fun marks c₁ => .done (some (.spread target.1 marks (c₁.spanFrom start))) c₁

/-- A field, from a name on. -/
def fieldBody (c : Cursor) : Script (Option Selection) :=
  let target := (keyedName (name c).result.1 (name c).result.2).result
  .call .arguments target.2 fun list c₁ =>
    .call .directives c₁ fun marks c₂ =>
      if c₂.at? (.mark .openBrace) then
        .call .selectionSet c₂ fun set c₃ =>
          .done (some (.field target.1.1 target.1.2 list marks (some set)
            (c₃.spanFrom c.current.span.start))) c₃
      else .done (some (.field target.1.1 target.1.2 list marks none (c₂.spanFrom c.current.span.start))) c₂

/-- What a function does from a cursor. -/
def body : (f : Call) → Cursor → Script f.Value
  | .definitions, c =>
      if c.atEnd then .done [] c
      else
        .call .definition c fun first c₁ =>
          .call .definitions c₁ fun rest c₂ => .done (first.toList ++ rest) c₂
  | .definition, c => definitionBody c c.kind
  | .skipDefinition depth, c =>
      if c.atEnd then .done () c
      else if c.kind = .mark .openBrace then .call (.skipDefinition (depth + 1)) c.advance .done
      else if c.kind = .mark .closeBrace then
        if depth ≤ 1 then .done () c.advance else .call (.skipDefinition (depth - 1)) c.advance .done
      else if depth = 0 ∧ c.kind ∈ [.keyword .query, .keyword .mutation, .keyword .fragment] then .done () c
      else .call (.skipDefinition depth) c.advance .done
  | .operation start kind, c =>
      if c.kind.isName && !c.at? (.keyword .on) then
        .call (.operationBody start kind (some (name c).result.1)) (name c).result.2 .done
      else .call (.operationBody start kind none) c .done
  | .operationBody start kind target, c =>
      .call .variableDefinitions c fun list c₁ =>
        .call .directives c₁ fun marks c₂ =>
          .call .selectionSet c₂ fun set c₃ => .done ⟨kind, target, list, marks, set, c₃.spanFrom start⟩ c₃
  | .fragment start, c =>
      let target := (name c).result
      let condition := (name (target.2.expect (.keyword .on))).result
      .call .directives condition.2 fun marks c₁ =>
        .call .selectionSet c₁ fun set c₂ => .done ⟨target.1, condition.1, marks, set, c₂.spanFrom start⟩ c₂
  | .variableDefinitions, c =>
      if c.at? (.mark .openParen) then
        .call .variableList c.advance fun list c₁ => .done list (c₁.expect (.mark .closeParen))
      else .done [] c
  | .variableList, c =>
      if c.at? (.mark .closeParen) || c.atEnd then .done [] c
      else if c.at? (.mark .dollar) then
        .call (.variableDefinition c.current.span.start) c.advance fun first c₁ =>
          .call .variableList c₁ fun rest c₂ => .done (first :: rest) c₂
      else .call .variableList (c.expect (.mark .dollar)).advance .done
  | .variableDefinition start, c =>
      let target := (name c).result
      .call .typeExpr (target.2.expect (.mark .colon)) fun type c₁ =>
        .call .defaultLiteral c₁ fun default c₂ =>
          .call .directives c₂ fun _ c₃ => .done ⟨target.1, type, default, c₃.spanFrom start⟩ c₃
  | .defaultLiteral, c =>
      if c.at? (.mark .equals) then .call .literal c.advance fun value c₁ => .done (some value) c₁
      else .done none c
  | .typeExpr, c =>
      if c.at? (.mark .openBracket) then
        .call .typeExpr c.advance fun item c₁ =>
          let c₂ := c₁.expect (.mark .closeBracket)
          bangBody c.current.span.start (.list item (c₂.spanFrom c.current.span.start)) c₂
      else bangBody c.current.span.start (.named (name c).result.1) (name c).result.2
  | .selectionSet, c => .call (.openedSet c.current.span.start) (c.expect (.mark .openBrace)) .done
  | .openedSet start, c =>
      .call .selections c fun list c₁ =>
        let c₂ := c₁.expect (.mark .closeBrace)
        let c₃ := if list.isEmpty then c₂.report .emptySelectionSet (c₂.spanFrom start) else c₂
        .done (.mk list (c₃.spanFrom start)) c₃
  | .selections, c =>
      if c.at? (.mark .closeBrace) || c.atEnd then .done [] c
      else
        .call .selection c fun first c₁ =>
          .call .selections c₁ fun rest c₂ => .done (first.toList ++ rest) c₂
  | .selection, c =>
      if c.at? (.mark .spread) then spreadBody c.current.span.start c.advance
      else if c.kind.isName then fieldBody c
      else .done none (c.missing .selection).advance
  | .arguments, c =>
      if c.at? (.mark .openParen) then
        .call .argumentList c.advance fun list c₁ => .done list (c₁.expect (.mark .closeParen))
      else .done [] c
  | .argumentList, c =>
      if c.at? (.mark .closeParen) || c.atEnd then .done [] c
      else if c.kind.isName then
        let target := (name c).result
        .call .literal (target.2.expect (.mark .colon)) fun value c₁ =>
          .call .argumentList c₁ fun rest c₂ =>
            .done (⟨target.1, value, c₁.spanFrom c.current.span.start⟩ :: rest) c₂
      else .call .argumentList (c.missing .argumentName).advance .done
  | .directives, c =>
      if c.at? (.mark .atSign) then
        let target := (name c.advance).result
        .call .arguments target.2 fun list c₁ =>
          .call .directives c₁ fun rest c₂ =>
            .done (⟨target.1, list, c₁.spanFrom c.current.span.start⟩ :: rest) c₂
      else .done [] c
  | .literal, c => literalBody c c.kind
  | .literalList, c =>
      if c.at? (.mark .closeBracket) || c.atEnd then .done [] c
      else
        .call .literal c fun item c₁ =>
          .call .literalList c₁ fun rest c₂ => .done (item :: rest) c₂
  | .literalFields, c =>
      if c.at? (.mark .closeBrace) || c.atEnd then .done [] c
      else
        let field := (name c).result
        .call .literal (field.2.expect (.mark .colon)) fun value c₁ =>
          .call .literalFields c₁ fun rest c₂ => .done ((field.1, value) :: rest) c₂

/-- What a call comes to when it is evaluated by evaluating its calls, nested no deeper than the fuel says. -/
def evaluate : Nat → (f : Call) → Cursor → Option (f.Value × Cursor × List Token)
  | 0, _, _ => none
  | fuel + 1, f, c => (body f c).answer (evaluate fuel) c

theorem run_wordedBody (c : Cursor) (word : Keyword) : (wordedBody c word).run = worded c word := by
  unfold wordedBody worded
  cases operationKind? word with
  | some kind => rfl
  | none =>
      dsimp only
      split
      · rfl
      · split <;> rfl

theorem run_definitionBody (c : Cursor) (kind : TokenKind) :
    (definitionBody c kind).run = definitionOf c kind := by
  fun_cases definitionBody c kind with
  | case1 => rfl
  | case2 => rfl
  | case3 => rfl
  | case4 word => exact run_wordedBody c word
  | case5 =>
      rw [definitionOf]
      · rfl
      all_goals assumption

theorem run_literalBody (c : Cursor) (kind : TokenKind) : (literalBody c kind).run = literalOf c kind := by
  fun_cases literalBody c kind <;> rfl

theorem run_bangBody (start : Nat) (type : TypeExpr) (c : Cursor) : (bangBody start type c).run =
    if c.at? (.mark .bang) then (.nonNull type (c.advance.spanFrom start), c.advance) else (type, c) := by
  unfold bangBody
  split <;> rfl

theorem run_spreadBody (start : Nat) (c : Cursor) :
    (spreadBody start c).run = (some (spreadOf start c).1, (spreadOf start c).2) := by
  unfold spreadBody spreadOf
  split
  · rfl
  · split <;> rfl

theorem run_fieldBody (c : Cursor) : (fieldBody c).run = (some (fieldOf c).1, (fieldOf c).2) := by
  unfold fieldBody fieldOf
  dsimp only [Script.run, Call.run]
  rw [apply_ite Script.run]
  split <;> rfl

/-- **A body gives what its function gives**, when its calls give what their functions give. -/
theorem body_run (f : Call) (c : Cursor) : (body f c).run = f.run c := by
  cases f with
  | definitions =>
      rw [Call.run, definitions_result, body]
      split <;> rfl
  | definition => exact run_definitionBody c c.kind
  | skipDefinition depth =>
      rw [Call.run, skipDefinition_result, body]
      split
      · rfl
      · split
        · rfl
        · split
          · split <;> rfl
          · split <;> rfl
  | operation start kind =>
      rw [Call.run, operation_result, body]
      split <;> rfl
  | operationBody => rfl
  | fragment => rfl
  | variableDefinitions =>
      rw [Call.run, variableDefinitions_result, body]
      split <;> rfl
  | variableList =>
      rw [Call.run, variableList_result, body]
      split
      · rfl
      · split <;> rfl
  | variableDefinition => rfl
  | defaultLiteral =>
      rw [Call.run, defaultLiteral_result, body]
      split <;> rfl
  | typeExpr =>
      rw [Call.run, typeExpr_result, body, innerType]
      split
      · exact run_bangBody ..
      · exact run_bangBody ..
  | selectionSet =>
      rw [Call.run, selectionSet_result]
      rfl
  | openedSet start =>
      rw [Call.run, openedSet_result]
      rfl
  | selections =>
      rw [Call.run, selections_result, body]
      split <;> rfl
  | selection =>
      rw [Call.run, selection_result, body]
      split
      · exact run_spreadBody ..
      · split
        · exact run_fieldBody c
        · rfl
  | arguments =>
      rw [Call.run, arguments_result, body]
      split <;> rfl
  | argumentList =>
      rw [Call.run, argumentList_result, body]
      split
      · rfl
      · split <;> rfl
  | directives =>
      rw [Call.run, directives_result, body]
      split <;> rfl
  | literal =>
      rw [Call.run, literal_result]
      exact run_literalBody c c.kind
  | literalList =>
      rw [Call.run, literalList_result, body]
      split <;> rfl
  | literalFields =>
      rw [Call.run, literalFields_result, body]
      split <;> rfl

end Parser

end GraphClient
