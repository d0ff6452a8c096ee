import GraphClient.Document.Parser

/-! What each step of the reader does, as one equation for its value and the cursor behind it. The bounds
that the steps carry to make reading end are left out; what is proved about a step starts from here. -/

namespace GraphClient

/-- The value of a step and the cursor behind it. -/
def Parsed.result {α : Type} {c : Cursor} (p : Parsed c α) : α × Cursor := (p.value, p.next)

/-- The value of a step and the cursor behind it. -/
def Advanced.result {α : Type} {c : Cursor} (p : Advanced c α) : α × Cursor := (p.value, p.next)

namespace Parser

theorem name_result (c : Cursor) : (name c).result =
    if c.kind.isName then (⟨c.current.text, c.current.span⟩, c.advance)
    else (⟨"", c.current.span⟩, c.missing .name) := by
  unfold name
  split <;> rfl

theorem intLiteral_result (c : Cursor) : (intLiteral c).result =
    match LiteralText.int? c.current.text with
    | some value => (.int value c.current.span, c.advance)
    | none => (.null c.current.span, c.advance.report (.integerRange c.current.text) c.current.span) := by
  unfold intLiteral
  dsimp only
  cases LiteralText.int? c.current.text <;> rfl

/-- The literal that a token of a kind starts. -/
def literalOf (c : Cursor) : TokenKind → Literal × Cursor
  | .mark .dollar => (.variable (name c.advance).result.1, (name c.advance).result.2)
  | .int => (intLiteral c).result
  | .float => (.float (LiteralText.float c.current.text) c.current.span, c.advance)
  | .string => (.string (LiteralText.quoted c.current.text) c.current.span, c.advance)
  | .blockString => (.string (LiteralText.block c.current.text) c.current.span, c.advance)
  | .keyword .true => (.boolean true c.current.span, c.advance)
  | .keyword .false => (.boolean false c.current.span, c.advance)
  | .keyword .null => (.null c.current.span, c.advance)
  | .mark .openBracket =>
      let items := (literalList c.advance).result
      let next := items.2.expect (.mark .closeBracket)
      (.list items.1 (next.spanFrom c.current.span.start), next)
  | .mark .openBrace =>
      let fields := (literalFields c.advance).result
      let next := fields.2.expect (.mark .closeBrace)
      (.object fields.1 (next.spanFrom c.current.span.start), next)
  | kind =>
      if kind.isName then (.enum (name c).result.1, (name c).result.2)
      else (.null c.current.span, (c.missing .value).advance)

theorem literal_result (c : Cursor) : (literal c).result = literalOf c c.kind := by
  rw [literal]
  split
  case h_11 =>
    rw [literalOf]
    · split <;> rfl
    all_goals assumption
  all_goals
    rename_i h
    refine Eq.trans ?_ (congrArg (literalOf c) h).symm
    rfl

theorem literalList_result (c : Cursor) : (literalList c).result =
    if c.at? (.mark .closeBracket) || c.atEnd then ([], c)
    else
      let item := (literal c).result
      let rest := (literalList item.2).result
      (item.1 :: rest.1, rest.2) := by
  rw [literalList]
  split <;> rfl

theorem literalFields_result (c : Cursor) : (literalFields c).result =
    if c.at? (.mark .closeBrace) || c.atEnd then ([], c)
    else
      let field := (name c).result
      let value := (literal (field.2.expect (.mark .colon))).result
      let rest := (literalFields value.2).result
      ((field.1, value.1) :: rest.1, rest.2) := by
  rw [literalFields]
  split <;> rfl

/-- A type without the bang behind it. -/
def innerType (c : Cursor) : TypeExpr × Cursor :=
  if c.at? (.mark .openBracket) then
    let item := (typeExpr c.advance).result
    let next := item.2.expect (.mark .closeBracket)
    (.list item.1 (next.spanFrom c.current.span.start), next)
  else (.named (name c).result.1, (name c).result.2)

theorem typeExpr_result (c : Cursor) : (typeExpr c).result =
    let inner := innerType c
    if inner.2.at? (.mark .bang) then
      (.nonNull inner.1 (inner.2.advance.spanFrom c.current.span.start), inner.2.advance)
    else inner := by
  rw [typeExpr]
  unfold innerType
  by_cases h : c.at? (.mark .openBracket) = true
  · rw [dif_pos h, if_pos h]
    dsimp only
    split
    · rename_i hbang
      exact (if_pos hbang).symm
    · rename_i hbang
      exact (if_neg hbang).symm
  · rw [dif_neg h, if_neg h]
    dsimp only
    split
    · rename_i hbang
      exact (if_pos hbang).symm
    · rename_i hbang
      exact (if_neg hbang).symm

theorem argumentList_result (c : Cursor) : (argumentList c).result =
    if c.at? (.mark .closeParen) || c.atEnd then ([], c)
    else if c.kind.isName then
      let target := (name c).result
      let value := (literal (target.2.expect (.mark .colon))).result
      let rest := (argumentList value.2).result
      (⟨target.1, value.1, value.2.spanFrom c.current.span.start⟩ :: rest.1, rest.2)
    else (argumentList (c.missing .argumentName).advance).result := by
  rw [argumentList]
  split
  · rfl
  · split <;> rfl

theorem arguments_result (c : Cursor) : (arguments c).result =
    if c.at? (.mark .openParen) then
      let list := (argumentList c.advance).result
      (list.1, list.2.expect (.mark .closeParen))
    else ([], c) := by
  unfold arguments
  split <;> rfl

theorem directives_result (c : Cursor) : (directives c).result =
    if c.at? (.mark .atSign) then
      let target := (name c.advance).result
      let list := (arguments target.2).result
      let rest := (directives list.2).result
      (⟨target.1, list.1, list.2.spanFrom c.current.span.start⟩ :: rest.1, rest.2)
    else ([], c) := by
  rw [directives]
  split <;> rfl

theorem keyedName_result (first : Name) (c : Cursor) : (keyedName first c).result =
    if c.at? (.mark .colon) then ((some first, (name c.advance).result.1), (name c.advance).result.2)
    else ((none, first), c) := by
  unfold keyedName
  split <;> rfl

theorem selectionSet_result (c : Cursor) : (selectionSet c).result =
    (openedSet c.current.span.start (c.expect (.mark .openBrace))).result := by
  rw [selectionSet]
  rfl

theorem openedSet_result (start : Nat) (c : Cursor) : (openedSet start c).result =
    let list := (selections c).result
    let closed := list.2.expect (.mark .closeBrace)
    let next := if list.1.isEmpty then closed.report .emptySelectionSet (closed.spanFrom start) else closed
    (.mk list.1 (next.spanFrom start), next) := by
  rw [openedSet]
  rfl

theorem selections_result (c : Cursor) : (selections c).result =
    if c.at? (.mark .closeBrace) || c.atEnd then ([], c)
    else
      let first := (selection c).result
      let rest := (selections first.2).result
      (first.1.toList ++ rest.1, rest.2) := by
  rw [selections]
  split <;> rfl

/-- What a spread asks for, from behind its dots, which stand at `start`. -/
def spreadOf (start : Nat) (c : Cursor) : Selection × Cursor :=
  if c.at? (.keyword .on) then
    let condition := (name c.advance).result
    let marks := (directives condition.2).result
    let set := (selectionSet marks.2).result
    (.inline condition.1 marks.1 set.1 (set.2.spanFrom start), set.2)
  else if c.at? (.mark .openBrace) || c.at? (.mark .atSign) then
    let marks := (directives c).result
    let set := (selectionSet marks.2).result
    (.inline none marks.1 set.1 (set.2.spanFrom start), set.2)
  else
    let target := (name c).result
    let marks := (directives target.2).result
    (.spread target.1 marks.1 (marks.2.spanFrom start), marks.2)

/-- A field, from a name on. -/
def fieldOf (c : Cursor) : Selection × Cursor :=
  let target := (keyedName (name c).result.1 (name c).result.2).result
  let list := (arguments target.2).result
  let marks := (directives list.2).result
  if marks.2.at? (.mark .openBrace) then
    let set := (selectionSet marks.2).result
    (.field target.1.1 target.1.2 list.1 marks.1 (some set.1) (set.2.spanFrom c.current.span.start), set.2)
  else
    (.field target.1.1 target.1.2 list.1 marks.1 none (marks.2.spanFrom c.current.span.start), marks.2)

theorem selection_result (c : Cursor) : (selection c).result =
    if c.at? (.mark .spread) then
      let spread := spreadOf c.current.span.start c.advance
      (some spread.1, spread.2)
    else if c.kind.isName then
      let field := fieldOf c
      (some field.1, field.2)
    else (none, (c.missing .selection).advance) := by
  rw [selection]
  by_cases hspread : c.at? (.mark .spread) = true
  · rw [dif_pos hspread, if_pos hspread]
    unfold spreadOf
    dsimp only
    split
    · rfl
    · split <;> rfl
  · rw [dif_neg hspread, if_neg hspread]
    by_cases hname : c.kind.isName = true
    · rw [dif_pos hname, if_pos hname]
      unfold fieldOf
      dsimp only [Parsed.result]
      split <;> rfl
    · rw [dif_neg hname, if_neg hname]
      rfl

theorem defaultLiteral_result (c : Cursor) : (defaultLiteral c).result =
    if c.at? (.mark .equals) then (some (literal c.advance).result.1, (literal c.advance).result.2)
    else (none, c) := by
  unfold defaultLiteral
  split <;> rfl

theorem variableDefinition_result (start : Nat) (c : Cursor) : (variableDefinition start c).result =
    let target := (name c).result
    let type := (typeExpr (target.2.expect (.mark .colon))).result
    let default := (defaultLiteral type.2).result
    let marks := (directives default.2).result
    (⟨target.1, type.1, default.1, marks.2.spanFrom start⟩, marks.2) := rfl

theorem variableList_result (c : Cursor) : (variableList c).result =
    if c.at? (.mark .closeParen) || c.atEnd then ([], c)
    else if c.at? (.mark .dollar) then
      let first := (variableDefinition c.current.span.start c.advance).result
      let rest := (variableList first.2).result
      (first.1 :: rest.1, rest.2)
    else (variableList (c.expect (.mark .dollar)).advance).result := by
  rw [variableList]
  split
  · rfl
  · split <;> rfl

theorem variableDefinitions_result (c : Cursor) : (variableDefinitions c).result =
    if c.at? (.mark .openParen) then
      let list := (variableList c.advance).result
      (list.1, list.2.expect (.mark .closeParen))
    else ([], c) := by
  unfold variableDefinitions
  split <;> rfl

theorem operationBody_result (start : Nat) (kind : OperationKind) (target : Option Name) (c : Cursor) :
    (operationBody start kind target c).result =
      let list := (variableDefinitions c).result
      let marks := (directives list.2).result
      let set := (selectionSet marks.2).result
      (⟨kind, target, list.1, marks.1, set.1, set.2.spanFrom start⟩, set.2) := rfl

theorem operation_result (start : Nat) (kind : OperationKind) (c : Cursor) : (operation start kind c).result =
    if c.kind.isName && !c.at? (.keyword .on) then
      (operationBody start kind (some (name c).result.1) (name c).result.2).result
    else (operationBody start kind none c).result := by
  unfold operation
  split <;> rfl

theorem fragment_result (start : Nat) (c : Cursor) : (fragment start c).result =
    let target := (name c).result
    let condition := (name (target.2.expect (.keyword .on))).result
    let marks := (directives condition.2).result
    let set := (selectionSet marks.2).result
    (⟨target.1, condition.1, marks.1, set.1, set.2.spanFrom start⟩, set.2) := rfl

theorem skipDefinition_result (depth : Nat) (c : Cursor) : (skipDefinition depth c).result =
    if c.atEnd then ((), c)
    else if c.kind = .mark .openBrace then (skipDefinition (depth + 1) c.advance).result
    else if c.kind = .mark .closeBrace then
      if depth ≤ 1 then ((), c.advance) else (skipDefinition (depth - 1) c.advance).result
    else if depth = 0 ∧ c.kind ∈ [.keyword .query, .keyword .mutation, .keyword .fragment] then ((), c)
    else (skipDefinition depth c.advance).result := by
  rw [skipDefinition]
  split
  · rfl
  · split
    · rename_i h
      rw [h]
      rfl
    · rename_i h
      rw [h]
      split <;> rfl
    · rename_i hopen hclose
      rw [if_neg hopen, if_neg hclose]
      split <;> rfl

/-- The definition that a keyword starts. -/
def worded (c : Cursor) (word : Keyword) : Option Definition × Cursor :=
  match operationKind? word with
  | some kind =>
      let operation := (operation c.current.span.start kind c.advance).result
      (some (.operation operation.1), operation.2)
  | none =>
      if word = .fragment then
        let fragment := (fragment c.current.span.start c.advance).result
        (some (.fragment fragment.1), fragment.2)
      else if word.startsTypeSystem then
        (none, (skipDefinition 0 (c.report (.typeSystem word) c.current.span).advance).result.2)
      else (none, (c.missing .definition).advance)

/-- The definition that a token of a kind starts. -/
def definitionOf (c : Cursor) : TokenKind → Option Definition × Cursor
  | .mark .openBrace =>
      let set := (openedSet c.current.span.start c.advance).result
      (some (.operation ⟨.query, none, [], [], set.1, set.2.spanFrom c.current.span.start⟩), set.2)
  | .string | .blockString => (none, c.advance)
  | .keyword word => worded c word
  | _ => (none, (c.missing .definition).advance)

theorem definition_result (c : Cursor) (hpos : 0 < c.left) :
    (definition c hpos).result = definitionOf c c.kind := by
  unfold definition
  dsimp only
  split
  · rename_i h
    rw [h]
    rfl
  · rename_i h
    rw [h]
    rfl
  · rename_i h
    rw [h]
    rfl
  · rename_i word h
    rw [h, definitionOf, worded]
    cases operationKind? word with
    | some kind => rfl
    | none =>
        dsimp only
        split
        · rfl
        · split <;> rfl
  · unfold definitionOf
    split <;> simp_all [Advanced.result]

theorem definitions_result (c : Cursor) : (definitions c).result =
    if c.atEnd then ([], c)
    else
      let first := definitionOf c c.kind
      let rest := (definitions first.2).result
      (first.1.toList ++ rest.1, rest.2) := by
  rw [definitions]
  split
  · rfl
  · rename_i h
    rw [← definition_result c (Cursor.left_pos_of_not_atEnd (by simpa using h))]
    rfl

end Parser

end GraphClient
