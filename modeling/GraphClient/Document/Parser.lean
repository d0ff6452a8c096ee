import GraphClient.Document.Cursor
import GraphClient.Document.Lexer
import GraphClient.Document.LiteralText
import GraphClient.Document.Tree

/-! Reading a document from its tokens, by descent. A mistake is reported where it is met and reading
goes on, so that every text has a tree and one pass reports as much as it can; the tree is the
document that was meant only if nothing was reported. -/

namespace GraphClient.Parser

/-- The token that has to stand here. -/
def expect (kind : TokenKind) (c : Cursor) : Parsed c Unit :=
  ⟨(), c.expect kind, c.left_expect_le kind⟩

/-- A name, or an empty one where none stands. -/
def name (c : Cursor) : Parsed c Name :=
  if c.kind.isName then ⟨⟨c.current.text, c.current.span⟩, c.advance, by simp⟩
  else ⟨⟨"", c.current.span⟩, c.missing .name, by simp⟩

theorem name_next_lt {c : Cursor} (h : c.kind.isName = true) : (name c).next.left < c.left := by
  have hpos : 0 < c.left := Cursor.left_pos_of_kind rfl (fun hk => by rw [hk] at h; cases h)
  simp only [name, h, if_true, Cursor.left_advance]
  omega

/-- The whole number that the current token writes; null if it is too large. -/
def intLiteral (c : Cursor) : Advanced c Literal :=
  let span := c.current.span
  match LiteralText.int? c.current.text with
  | some value => ⟨.int value span, c.advance, by simp, Cursor.left_advance_lt⟩
  | none =>
      ⟨.null span, c.advance.report (.integerRange c.current.text) span, by simp, Cursor.left_advance_lt⟩

/-- A literal that is one token. -/
def tokenLiteral (c : Cursor) (literal : Span → Literal) : Advanced c Literal :=
  ⟨literal c.current.span, c.advance, by simp, Cursor.left_advance_lt⟩

mutual

def literal (c : Cursor) : Advanced c Literal :=
  match h : c.kind with
  | .mark .dollar =>
      have hpos := Cursor.left_pos_of_kind h (by decide)
      let ⟨target, c₁, h₁⟩ := name c.advance
      have hlt : c₁.left < c.left := by rw [Cursor.left_advance] at h₁; omega
      ⟨.variable target, c₁, Nat.le_of_lt hlt, fun _ => hlt⟩
  | .int => intLiteral c
  | .float => tokenLiteral c (.float (LiteralText.float c.current.text))
  | .string => tokenLiteral c (.string (LiteralText.quoted c.current.text))
  | .blockString => tokenLiteral c (.string (LiteralText.block c.current.text))
  | .keyword .true => tokenLiteral c (.boolean true)
  | .keyword .false => tokenLiteral c (.boolean false)
  | .keyword .null => tokenLiteral c .null
  | .mark .openBracket =>
      have hpos := Cursor.left_pos_of_kind h (by decide)
      let ⟨items, c₁, h₁⟩ := literalList c.advance
      let ⟨_, c₂, h₂⟩ := expect (.mark .closeBracket) c₁
      have hlt : c₂.left < c.left := by rw [Cursor.left_advance] at h₁; omega
      ⟨.list items (c₂.spanFrom c.current.span.start), c₂, Nat.le_of_lt hlt, fun _ => hlt⟩
  | .mark .openBrace =>
      have hpos := Cursor.left_pos_of_kind h (by decide)
      let ⟨fields, c₁, h₁⟩ := literalFields c.advance
      let ⟨_, c₂, h₂⟩ := expect (.mark .closeBrace) c₁
      have hlt : c₂.left < c.left := by rw [Cursor.left_advance] at h₁; omega
      ⟨.object fields (c₂.spanFrom c.current.span.start), c₂, Nat.le_of_lt hlt, fun _ => hlt⟩
  | kind =>
      if hn : kind.isName then
        ⟨.enum (name c).value, (name c).next, (name c).le, fun _ => name_next_lt (by rw [h]; exact hn)⟩
      else
        ⟨.null c.current.span, (c.missing .value).advance, by simp, Cursor.left_missing_advance_lt _⟩
termination_by 2 * c.left
decreasing_by all_goals (rw [Cursor.left_advance]; omega)

/-- The items of a list, up to the bracket that closes it. -/
def literalList (c : Cursor) : Parsed c (List Literal) :=
  if hstop : c.at? (.mark .closeBracket) || c.atEnd then ⟨[], c, Nat.le_refl _⟩
  else
    have hpos : 0 < c.left := Cursor.left_pos_of_not_atEnd (by simp_all)
    let ⟨item, c₁, _, h₁⟩ := literal c
    have hlt := h₁ hpos
    let ⟨rest, c₂, h₂⟩ := literalList c₁
    ⟨item :: rest, c₂, by omega⟩
termination_by 2 * c.left + 1
decreasing_by all_goals omega

/-- The fields of an object, up to the brace that closes it. -/
def literalFields (c : Cursor) : Parsed c (List (Name × Literal)) :=
  if hstop : c.at? (.mark .closeBrace) || c.atEnd then ⟨[], c, Nat.le_refl _⟩
  else
    have hpos : 0 < c.left := Cursor.left_pos_of_not_atEnd (by simp_all)
    let ⟨field, c₁, h₁⟩ := name c
    let ⟨_, c₂, h₂⟩ := expect (.mark .colon) c₁
    let ⟨value, c₃, h₃, h₄⟩ := literal c₂
    have hlt : c₃.left < c.left := by
      rcases Nat.eq_zero_or_pos c₂.left with h | h
      · omega
      · have := h₄ h; omega
    let ⟨rest, c₄, h₅⟩ := literalFields c₃
    ⟨(field, value) :: rest, c₄, by omega⟩
termination_by 2 * c.left + 1
decreasing_by all_goals omega

end

/-- A type; one behind a bang admits no null. -/
def typeExpr (c : Cursor) : Parsed c TypeExpr :=
  let start := c.current.span.start
  let inner : Parsed c TypeExpr :=
    if h : c.at? (.mark .openBracket) then
      have hpos := Cursor.left_pos_of_at? h (by decide)
      let ⟨item, c₁, h₁⟩ := typeExpr c.advance
      let ⟨_, c₂, h₂⟩ := expect (.mark .closeBracket) c₁
      ⟨.list item (c₂.spanFrom start), c₂, by rw [Cursor.left_advance] at h₁; omega⟩
    else
      let ⟨target, c₁, h₁⟩ := name c
      ⟨.named target, c₁, h₁⟩
  let ⟨type, c₁, h₁⟩ := inner
  if c₁.at? (.mark .bang) then
    ⟨.nonNull type (c₁.advance.spanFrom start), c₁.advance, by rw [Cursor.left_advance]; omega⟩
  else ⟨type, c₁, h₁⟩
termination_by c.left
decreasing_by rw [Cursor.left_advance]; omega

/-- The arguments up to the closing parenthesis. -/
def argumentList (c : Cursor) : Parsed c (List Argument) :=
  if hstop : c.at? (.mark .closeParen) || c.atEnd then ⟨[], c, Nat.le_refl _⟩
  else
    have hpos : 0 < c.left := Cursor.left_pos_of_not_atEnd (by simp_all)
    if hname : c.kind.isName then
      have h₁ := name_next_lt hname
      let target := (name c).value
      let ⟨_, c₂, h₂⟩ := expect (.mark .colon) (name c).next
      let ⟨value, c₃, h₃, _⟩ := literal c₂
      let ⟨rest, c₄, h₄⟩ := argumentList c₃
      ⟨⟨target, value, c₃.spanFrom c.current.span.start⟩ :: rest, c₄, by omega⟩
    else
      let ⟨rest, c₁, h₁⟩ := argumentList (c.missing .argumentName).advance
      ⟨rest, c₁, by rw [Cursor.left_advance, Cursor.left_missing] at h₁; omega⟩
termination_by c.left
decreasing_by
  · omega
  · rw [Cursor.left_advance, Cursor.left_missing]; omega

/-- Arguments in parentheses, if there are any. -/
def arguments (c : Cursor) : Parsed c (List Argument) :=
  if c.at? (.mark .openParen) then
    let ⟨list, c₁, h₁⟩ := argumentList c.advance
    let ⟨_, c₂, h₂⟩ := expect (.mark .closeParen) c₁
    ⟨list, c₂, by rw [Cursor.left_advance] at h₁; omega⟩
  else ⟨[], c, Nat.le_refl _⟩

def directives (c : Cursor) : Parsed c (List Directive) :=
  if h : c.at? (.mark .atSign) then
    have hpos := Cursor.left_pos_of_at? h (by decide)
    let ⟨target, c₁, h₁⟩ := name c.advance
    let ⟨list, c₂, h₂⟩ := arguments c₁
    have hlt : c₂.left < c.left := by rw [Cursor.left_advance] at h₁; omega
    let ⟨rest, c₃, h₃⟩ := directives c₂
    ⟨⟨target, list, c₂.spanFrom c.current.span.start⟩ :: rest, c₃, by omega⟩
  else ⟨[], c, Nat.le_refl _⟩
termination_by c.left

/-- The key and the name of a field, from behind the first name. -/
def keyedName (first : Name) (c : Cursor) : Parsed c (Option Name × Name) :=
  if c.at? (.mark .colon) then
    let ⟨second, c₁, h₁⟩ := name c.advance
    ⟨(some first, second), c₁, by rw [Cursor.left_advance] at h₁; omega⟩
  else ⟨(none, first), c, Nat.le_refl _⟩

mutual

/-- A selection set. -/
def selectionSet (c : Cursor) : Parsed c SelectionSet :=
  let ⟨_, c₁, h₁⟩ := expect (.mark .openBrace) c
  let ⟨set, c₂, h₂⟩ := openedSet c.current.span.start c₁
  ⟨set, c₂, by omega⟩
termination_by 4 * c.left + 3
decreasing_by omega

/-- A selection set from behind its brace, which stands at `start` or is missing there. An empty one is
reported. -/
def openedSet (start : Nat) (c : Cursor) : Parsed c SelectionSet :=
  let ⟨list, c₁, h₁⟩ := selections c
  let ⟨_, c₂, h₂⟩ := expect (.mark .closeBrace) c₁
  let c₃ := if list.isEmpty then c₂.report .emptySelectionSet (c₂.spanFrom start) else c₂
  have h₃ : c₃.left = c₂.left := by simp only [c₃]; split <;> simp
  ⟨.mk list (c₃.spanFrom start), c₃, by omega⟩
termination_by 4 * c.left + 2
decreasing_by omega

/-- The selections up to the closing brace. -/
def selections (c : Cursor) : Parsed c (List Selection) :=
  if hstop : c.at? (.mark .closeBrace) || c.atEnd then ⟨[], c, Nat.le_refl _⟩
  else
    have hpos : 0 < c.left := Cursor.left_pos_of_not_atEnd (by simp_all)
    let ⟨first, c₁, _, h₁⟩ := selection c
    have hlt := h₁ hpos
    let ⟨rest, c₂, h₂⟩ := selections c₁
    ⟨first.toList ++ rest, c₂, by omega⟩
termination_by 4 * c.left + 1
decreasing_by all_goals omega

/-- One selection; none where nothing starts one. -/
def selection (c : Cursor) : Advanced c (Option Selection) :=
  let start := c.current.span.start
  if hspread : c.at? (.mark .spread) then
    have hpos := Cursor.left_pos_of_at? hspread (by decide)
    let c₁ := c.advance
    have h₁ : c₁.left < c.left := by simp only [c₁, Cursor.left_advance]; omega
    if c₁.at? (.keyword .on) then
      let ⟨condition, c₂, h₂⟩ := name c₁.advance
      let ⟨marks, c₃, h₃⟩ := directives c₂
      have hlt : c₃.left < c.left := by rw [Cursor.left_advance] at h₂; omega
      let ⟨set, c₄, h₄⟩ := selectionSet c₃
      ⟨some (.inline condition marks set (c₄.spanFrom start)), c₄, by omega, by omega⟩
    else if c₁.at? (.mark .openBrace) || c₁.at? (.mark .atSign) then
      let ⟨marks, c₂, h₂⟩ := directives c₁
      let ⟨set, c₃, h₃⟩ := selectionSet c₂
      ⟨some (.inline none marks set (c₃.spanFrom start)), c₃, by omega, by omega⟩
    else
      let ⟨target, c₂, h₂⟩ := name c₁
      let ⟨marks, c₃, h₃⟩ := directives c₂
      ⟨some (.spread target marks (c₃.spanFrom start)), c₃, by omega, by omega⟩
  else if hname : c.kind.isName then
    have h₁ := name_next_lt hname
    let first := (name c).value
    let c₁ := (name c).next
    let ⟨(key, target), c₂, h₂⟩ := keyedName first c₁
    let ⟨list, c₃, h₃⟩ := arguments c₂
    let ⟨marks, c₄, h₄⟩ := directives c₃
    have hlt : c₄.left < c.left := by simp only [c₁] at h₂; omega
    if c₄.at? (.mark .openBrace) then
      let ⟨set, c₅, h₅⟩ := selectionSet c₄
      ⟨some (.field key target list marks (some set) (c₅.spanFrom start)), c₅, by omega, by omega⟩
    else
      ⟨some (.field key target list marks none (c₄.spanFrom start)), c₄, by omega, by omega⟩
  else
    ⟨none, (c.missing .selection).advance, by simp, Cursor.left_missing_advance_lt _⟩
termination_by 4 * c.left
decreasing_by all_goals omega

end

/-- The default of a variable, if it has one. -/
def defaultLiteral (c : Cursor) : Parsed c (Option Literal) :=
  if c.at? (.mark .equals) then
    let ⟨value, c₁, h₁, _⟩ := literal c.advance
    ⟨some value, c₁, by rw [Cursor.left_advance] at h₁; omega⟩
  else ⟨none, c, Nat.le_refl _⟩

/-- A variable definition from behind its dollar, which stands at `start`. Its directives mean nothing
here and are dropped. -/
def variableDefinition (start : Nat) (c : Cursor) : Parsed c VariableDefinition :=
  let ⟨target, c₁, h₁⟩ := name c
  let ⟨_, c₂, h₂⟩ := expect (.mark .colon) c₁
  let ⟨type, c₃, h₃⟩ := typeExpr c₂
  let ⟨default, c₄, h₄⟩ := defaultLiteral c₃
  let ⟨_, c₅, h₅⟩ := directives c₄
  ⟨⟨target, type, default, c₅.spanFrom start⟩, c₅, by omega⟩

/-- The variable definitions up to the closing parenthesis. -/
def variableList (c : Cursor) : Parsed c (List VariableDefinition) :=
  if hstop : c.at? (.mark .closeParen) || c.atEnd then ⟨[], c, Nat.le_refl _⟩
  else
    have hpos : 0 < c.left := Cursor.left_pos_of_not_atEnd (by simp_all)
    if c.at? (.mark .dollar) then
      let ⟨first, c₁, h₁⟩ := variableDefinition c.current.span.start c.advance
      have hlt : c₁.left < c.left := by rw [Cursor.left_advance] at h₁; omega
      let ⟨rest, c₂, h₂⟩ := variableList c₁
      ⟨first :: rest, c₂, by omega⟩
    else
      let c₁ := (c.expect (.mark .dollar)).advance
      have hlt : c₁.left < c.left := by
        have := c.left_expect_le (.mark .dollar)
        simp only [c₁, Cursor.left_advance]
        omega
      let ⟨rest, c₂, h₂⟩ := variableList c₁
      ⟨rest, c₂, by omega⟩
termination_by c.left
decreasing_by all_goals exact hlt

/-- Variable definitions in parentheses, if there are any. -/
def variableDefinitions (c : Cursor) : Parsed c (List VariableDefinition) :=
  if c.at? (.mark .openParen) then
    let ⟨list, c₁, h₁⟩ := variableList c.advance
    let ⟨_, c₂, h₂⟩ := expect (.mark .closeParen) c₁
    ⟨list, c₂, by rw [Cursor.left_advance] at h₁; omega⟩
  else ⟨[], c, Nat.le_refl _⟩

/-- What follows the head of an operation that starts at `start`. -/
def operationBody (start : Nat) (kind : OperationKind) (target : Option Name) (c : Cursor) :
    Parsed c OperationDefinition :=
  let ⟨list, c₁, h₁⟩ := variableDefinitions c
  let ⟨marks, c₂, h₂⟩ := directives c₁
  let ⟨set, c₃, h₃⟩ := selectionSet c₂
  ⟨⟨kind, target, list, marks, set, c₃.spanFrom start⟩, c₃, by omega⟩

/-- An operation from behind its keyword, which stands at `start`. Its name may not be `on`. -/
def operation (start : Nat) (kind : OperationKind) (c : Cursor) : Parsed c OperationDefinition :=
  if c.kind.isName && !c.at? (.keyword .on) then
    let ⟨target, c₁, h₁⟩ := name c
    let ⟨definition, c₂, h₂⟩ := operationBody start kind (some target) c₁
    ⟨definition, c₂, by omega⟩
  else operationBody start kind none c

/-- A fragment from behind its keyword, which stands at `start`. -/
def fragment (start : Nat) (c : Cursor) : Parsed c FragmentDefinition :=
  let ⟨target, c₁, h₁⟩ := name c
  let ⟨_, c₂, h₂⟩ := expect (.keyword .on) c₁
  let ⟨condition, c₃, h₃⟩ := name c₂
  let ⟨marks, c₄, h₄⟩ := directives c₃
  let ⟨set, c₅, h₅⟩ := selectionSet c₄
  ⟨⟨target, condition, marks, set, c₅.spanFrom start⟩, c₅, by omega⟩

/-- Goes to the end of a definition that has no place here: behind the brace that closes its first
braces, or in front of a word that starts a query, a mutation or a fragment outside of braces. -/
def skipDefinition (depth : Nat) (c : Cursor) : Parsed c Unit :=
  if hstop : c.atEnd then ⟨(), c, Nat.le_refl _⟩
  else
    have hpos : 0 < c.left := Cursor.left_pos_of_not_atEnd (by simpa using hstop)
    have hlt : c.advance.left < c.left := by rw [Cursor.left_advance]; omega
    match c.kind with
    | .mark .openBrace =>
        let ⟨_, c₁, h₁⟩ := skipDefinition (depth + 1) c.advance
        ⟨(), c₁, by omega⟩
    | .mark .closeBrace =>
        if depth ≤ 1 then ⟨(), c.advance, Nat.le_of_lt hlt⟩
        else
          let ⟨_, c₁, h₁⟩ := skipDefinition (depth - 1) c.advance
          ⟨(), c₁, by omega⟩
    | kind =>
        if depth = 0 ∧ kind ∈ [.keyword .query, .keyword .mutation, .keyword .fragment] then
          ⟨(), c, Nat.le_refl _⟩
        else
          let ⟨_, c₁, h₁⟩ := skipDefinition depth c.advance
          ⟨(), c₁, by omega⟩
termination_by c.left

/-- The kind of operation that a keyword starts. -/
def operationKind? : Keyword → Option OperationKind
  | .query => some .query
  | .mutation => some .mutation
  | .subscription => some .subscription
  | _ => none

/-- One definition, from a token that is not the end; none where nothing starts one. A string stands
only before a definition of the type system, and is passed over. -/
def definition (c : Cursor) (hpos : 0 < c.left) : Advanced c (Option Definition) :=
  let start := c.current.span.start
  have hlt : c.advance.left < c.left := by rw [Cursor.left_advance]; omega
  match c.kind with
  | .mark .openBrace =>
      let ⟨set, c₁, h₁⟩ := openedSet start c.advance
      ⟨some (.operation ⟨.query, none, [], [], set, c₁.spanFrom start⟩), c₁, by omega, by omega⟩
  | .string | .blockString => ⟨none, c.advance, Nat.le_of_lt hlt, fun _ => hlt⟩
  | .keyword word =>
      match operationKind? word with
      | some kind =>
          let ⟨definition, c₁, h₁⟩ := operation start kind c.advance
          ⟨some (.operation definition), c₁, by omega, by omega⟩
      | none =>
          if word = .fragment then
            let ⟨definition, c₁, h₁⟩ := fragment start c.advance
            ⟨some (.fragment definition), c₁, by omega, by omega⟩
          else if word.startsTypeSystem then
            let c₁ := (c.report (.typeSystem word) c.current.span).advance
            have h₁ : c₁.left < c.left := by simp only [c₁, Cursor.left_advance, Cursor.left_report]; omega
            let ⟨_, c₂, h₂⟩ := skipDefinition 0 c₁
            ⟨none, c₂, by omega, by omega⟩
          else ⟨none, (c.missing .definition).advance, by simp, Cursor.left_missing_advance_lt _⟩
  | _ => ⟨none, (c.missing .definition).advance, by simp, Cursor.left_missing_advance_lt _⟩

/-- The definitions up to the end. -/
def definitions (c : Cursor) : Parsed c (List Definition) :=
  if hstop : c.atEnd then ⟨[], c, Nat.le_refl _⟩
  else
    have hpos : 0 < c.left := Cursor.left_pos_of_not_atEnd (by simpa using hstop)
    let ⟨first, c₁, _, h₁⟩ := definition c hpos
    have hlt := h₁ hpos
    let ⟨rest, c₂, h₂⟩ := definitions c₁
    ⟨first.toList ++ rest, c₂, by omega⟩
termination_by c.left

end GraphClient.Parser

namespace GraphClient

/-- A document and the mistakes met in it. -/
structure ParseResult where
  document : Document
  diagnostics : List Diagnostic

/-- Reads a document from its tokens, the end last. -/
def ParseResult.ofTokens (tokens : List Token) : ParseResult :=
  let size := (tokens.getLast?.getD (.finish 0)).span.stop
  let c := Cursor.start tokens.dropLast size
  let ⟨list, c₁, _⟩ := Parser.definitions c
  ⟨⟨list, c₁.spanFrom c.current.span.start⟩, c₁.diagnostics⟩

/-- Reads a document. -/
def parseDocument (source : String) : ParseResult := .ofTokens (tokenize source)

end GraphClient
