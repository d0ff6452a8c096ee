import GraphClient.Proofs.Document.Acceptance
import GraphClient.Proofs.Document.Progress

/-! The outline of a document is the tree of its spans. It is bounded if no span of it ends before it
starts or behind the text, and sound if every span goes from one character boundary to another, contains
the spans below it, and these come one behind the other. While a document is read, what has been read so
far is outlined step by step (`Outlined`): steps are put one behind the other (`Outlined.append`), and
the spans between two places go below the one from the first to the second (`Outlined.node`). -/

namespace GraphClient

/-- A span and the spans below it. -/
inductive Outline
  | node (span : Span) (children : List Outline)

def Outline.span : Outline → Span
  | node span _ => span

def Name.outline (name : Name) : Outline := .node name.span []

def TypeExpr.outline : TypeExpr → Outline
  | named name => name.outline
  | list item span => .node span [item.outline]
  | nonNull inner span => .node span [inner.outline]

mutual

def Literal.outline : Literal → Outline
  | .variable name | .enum name => name.outline
  | .int _ span | .float _ span | .string _ span | .boolean _ span | .null span => .node span []
  | .list items span => .node span (Literal.outlines items)
  | .object fields span => .node span (Literal.fieldOutlines fields)

def Literal.outlines : List Literal → List Outline
  | [] => []
  | item :: rest => item.outline :: Literal.outlines rest

def Literal.fieldOutlines : List (Name × Literal) → List Outline
  | [] => []
  | (name, value) :: rest => name.outline :: value.outline :: Literal.fieldOutlines rest

end

def Argument.outline (argument : Argument) : Outline :=
  .node argument.span [argument.name.outline, argument.value.outline]

def Directive.outline (directive : Directive) : Outline :=
  .node directive.span (directive.name.outline :: directive.arguments.map Argument.outline)

mutual

def Selection.outline : Selection → Outline
  | .field key name arguments directives set span =>
      .node span (key.toList.map Name.outline ++ name.outline :: (arguments.map Argument.outline ++
        (directives.map Directive.outline ++ SelectionSet.outlines set)))
  | .spread name directives span => .node span (name.outline :: directives.map Directive.outline)
  | .inline condition directives set span =>
      .node span (condition.toList.map Name.outline ++ (directives.map Directive.outline ++ [set.outline]))

def SelectionSet.outline : SelectionSet → Outline
  | .mk selections span => .node span (Selection.outlines selections)

def SelectionSet.outlines : Option SelectionSet → List Outline
  | none => []
  | some set => [set.outline]

def Selection.outlines : List Selection → List Outline
  | [] => []
  | selection :: rest => selection.outline :: Selection.outlines rest

end

def VariableDefinition.outlines (d : VariableDefinition) : List Outline :=
  d.name.outline :: d.type.outline :: d.default.toList.map Literal.outline

def VariableDefinition.outline (d : VariableDefinition) : Outline := .node d.span d.outlines

/-- What stands below an operation, behind its name. -/
def OperationDefinition.bodyOutlines (d : OperationDefinition) : List Outline :=
  d.variableDefinitions.map VariableDefinition.outline ++
    (d.directives.map Directive.outline ++ [d.set.outline])

def OperationDefinition.outlines (d : OperationDefinition) : List Outline :=
  d.name.toList.map Name.outline ++ d.bodyOutlines

def OperationDefinition.outline (d : OperationDefinition) : Outline := .node d.span d.outlines

def FragmentDefinition.outlines (d : FragmentDefinition) : List Outline :=
  d.name.outline :: d.condition.outline :: (d.directives.map Directive.outline ++ [d.set.outline])

def FragmentDefinition.outline (d : FragmentDefinition) : Outline := .node d.span d.outlines

def Definition.outline : Definition → Outline
  | .operation d => d.outline
  | .fragment d => d.outline

def Document.outline (document : Document) : Outline :=
  .node document.span (document.definitions.map Definition.outline)

theorem Selection.outlines_eq_map (list : List Selection) : outlines list = list.map outline := by
  induction list with
  | nil => rfl
  | cons s rest ih => rw [outlines, List.map_cons, ih]

theorem SelectionSet.outline_eq (set : SelectionSet) :
    set.outline = .node set.span (Selection.outlines set.selections) := by
  cases set
  rfl

/-- That a span lies in a text. -/
structure Span.Within (source : String) (span : Span) : Prop where
  ordered : span.start ≤ span.stop
  inside : span.stop ≤ Text.byteLength source.toList

/-- A place in front of a character of a text, or at the end of it. -/
def Boundary (source : String) (place : Nat) : Prop :=
  ∃ before after, source.toList = before ++ after ∧ place = Text.byteLength before

namespace Outline

/-- That trees stand between two places, one behind the other. -/
structure Row (start stop : Nat) (trees : List Outline) : Prop where
  between : ∀ t ∈ trees, start ≤ t.span.start ∧ t.span.stop ≤ stop
  apart : trees.Pairwise fun t u => t.span.stop ≤ u.span.start

/-- That every span of a tree lies in the text. -/
inductive Bounded (source : String) : Outline → Prop
  | node {span : Span} {children : List Outline} (hspan : span.Within source)
      (hchildren : ∀ t ∈ children, Bounded source t) : Bounded source (.node span children)

/-- That every span of a tree starts and ends between characters, and contains the spans below it,
which do not overlap and stand in the order of the text. -/
inductive Sound (source : String) : Outline → Prop
  | node {span : Span} {children : List Outline} (hstart : Boundary source span.start)
      (hstop : Boundary source span.stop) (hrow : Row span.start span.stop children)
      (hchildren : ∀ t ∈ children, Sound source t) : Sound source (.node span children)

variable {source : String} {start middle middle' stop : Nat} {trees trees' : List Outline}

theorem Row.nil : Row start stop [] := ⟨List.forall_mem_nil _, .nil⟩

theorem Row.append (h : Row start middle trees) (h' : Row middle' stop trees') (hmiddle : middle ≤ middle')
    (hstart : start ≤ middle') (hstop : middle ≤ stop) : Row start stop (trees ++ trees') where
  between := by
    refine List.forall_mem_append.2 ⟨fun t ht => ?_, fun t ht => ?_⟩
    · exact ⟨(h.between t ht).1, Nat.le_trans (h.between t ht).2 hstop⟩
    · exact ⟨Nat.le_trans hstart (h'.between t ht).1, (h'.between t ht).2⟩
  apart := by
    refine List.pairwise_append.2 ⟨h.apart, h'.apart, fun t ht u hu => ?_⟩
    exact Nat.le_trans (h.between t ht).2 (Nat.le_trans hmiddle (h'.between u hu).1)

theorem Bounded.leaf {span : Span} (h : span.Within source) : Bounded source (.node span []) :=
  .node h (List.forall_mem_nil _)

theorem Sound.leaf {span : Span} (hstart : Boundary source span.start) (hstop : Boundary source span.stop) :
    Sound source (.node span []) := .node hstart hstop .nil (List.forall_mem_nil _)

end Outline

/-- Whether a token is a stretch of characters, and not a single byte or the end of the text. -/
def TokenKind.isWhole : TokenKind → Bool
  | .invalid | .finish => false
  | _ => true

theorem TokenKind.isWhole_iff {kind : TokenKind} :
    kind.isWhole = true ↔ kind ≠ .invalid ∧ kind ≠ .finish := by
  cases kind <;> simp [isWhole]

theorem TokenKind.isWhole_of_isName {kind : TokenKind} (h : kind.isName = true) : kind.isWhole = true := by
  cases kind with
  | name => rfl
  | keyword => rfl
  | _ => cases h

/-- That the tokens left lie in a text behind the last token taken, and the
mistakes met so far somewhere in it. -/
structure Cursor.Lies (source : String) (c : Cursor) : Prop where
  tokens : Lexer.Laid source.toList c.lastStop c.stream
  diagnostics : ∀ d ∈ c.diagnostics, d.span.Within source

/-- Tokens lie within the text. -/
theorem Lexer.Laid.le_length {source : List Char} {place : Nat} {ts : List Token} (h : Laid source place ts) :
    place ≤ Text.byteLength source := by
  induction h with
  | finish hle => exact hle
  | cons hle _ _ hnonempty _ _ ih => exact Nat.le_trans (Nat.le_trans hle (Nat.le_of_lt hnonempty)) ih

namespace Cursor

variable {source : String} {c : Cursor}

theorem Onward.ne_of_lt {d e : Cursor} (h : d.Onward e) (hlt : d.left < c.left) : e ≠ c := by
  rintro rfl
  exact Nat.not_lt.2 h.left_le hlt

theorem current_mem_stream (c : Cursor) : c.current ∈ c.stream := by
  rw [current, stream]
  cases c.tokens with
  | nil => exact List.mem_singleton_self _
  | cons t rest => exact List.mem_cons_self

namespace Lies

theorem lastStop_le (h : c.Lies source) : c.lastStop ≤ c.current.span.start :=
  h.tokens.le_start _ c.current_mem_stream

/-- The current token, and what is left behind it. -/
theorem step (h : c.Lies source) : c.current.span.Within source ∧
    Lexer.Laid source.toList c.advance.lastStop c.advance.stream := by
  obtain ⟨tokens, size, lastStop, diagnostics⟩ := c
  have htokens := h.tokens
  cases tokens with
  | nil =>
      cases htokens with
      | finish => exact ⟨⟨Nat.le_refl _, Nat.le_refl _⟩, .finish (Nat.le_refl _) (Lexer.blank_empty _ _)⟩
      | cons _ _ hkind => exact absurd rfl hkind
  | cons t rest =>
      change Lexer.Laid source.toList lastStop (t :: (rest ++ [Token.finish size])) at htokens
      generalize hrest : rest ++ [Token.finish size] = after at htokens
      cases htokens with
      | finish => exact absurd hrest (List.append_ne_nil_of_right_ne_nil _ (List.cons_ne_nil _ _))
      | cons _ _ _ hnonempty _ hlaid =>
          subst hrest
          exact ⟨⟨Nat.le_of_lt hnonempty, hlaid.le_length⟩, hlaid⟩

theorem within_current (h : c.Lies source) : c.current.span.Within source := h.step.1

theorem boundary (h : c.Lies source) (hkind : c.kind ≠ .invalid) :
    Boundary source c.current.span.start ∧ Boundary source c.current.span.stop := by
  obtain ⟨after, before, hsource, hspan⟩ := (h.tokens.cut _ c.current_mem_stream).piece hkind
  rw [hspan]
  refine ⟨⟨before, _, hsource, rfl⟩, ⟨before ++ c.current.text.toList, after, ?_, ?_⟩⟩
  · rw [hsource, List.append_assoc]
  · rw [Text.byteLength_append]

theorem advance (h : c.Lies source) : c.advance.Lies source := ⟨h.step.2, h.diagnostics⟩

theorem report (h : c.Lies source) {fault : SyntaxFault} {span : Span} (hspan : span.Within source) :
    (c.report fault span).Lies source :=
  ⟨h.tokens, List.forall_mem_append.2 ⟨h.diagnostics, List.forall_mem_singleton.2 hspan⟩⟩

theorem missing (h : c.Lies source) (wanted : Wanted) : (c.missing wanted).Lies source :=
  h.report h.within_current

theorem expect (h : c.Lies source) (kind : TokenKind) : (c.expect kind).Lies source := by
  unfold Cursor.expect
  split
  · exact h.advance
  · exact h.report h.within_current

theorem start_le (h : c.Lies source) : c.current.span.start ≤ Text.byteLength source.toList :=
  Nat.le_trans h.within_current.ordered h.within_current.inside

/-- What was read from a place on lies in the text. -/
theorem within_spanFrom (h : c.Lies source) {start : Nat} (hstart : start ≤ Text.byteLength source.toList) :
    (c.spanFrom start).Within source where
  ordered := Nat.le_max_right _ _
  inside := Nat.max_le.2 ⟨h.tokens.le_length, hstart⟩

end Lies

end Cursor

namespace Parser

/-- That whole tokens, at least one, were taken from the current token of a cursor up to another cursor. -/
structure Takes (source : String) (c d : Cursor) : Prop where
  start : Boundary source c.current.span.start
  stop : Boundary source d.lastStop
  le : c.current.span.start ≤ d.lastStop

/-- That trees are the outline of what was read between two cursors: they are bounded, and, if there
was no mistake so far, sound and in a row. -/
structure Outlined (source : String) (c : Cursor) (trees : List Outline) (d : Cursor) : Prop where
  onward : c.Onward d
  lies : d.Lies source
  bounded : ∀ t ∈ trees, t.Bounded source
  takes : d.diagnostics = [] → d = c ∨ Takes source c d
  row : d.diagnostics = [] → Outline.Row c.current.span.start d.lastStop trees
  sound : d.diagnostics = [] → ∀ t ∈ trees, t.Sound source

variable {source : String} {c d e : Cursor} {trees trees' : List Outline}

namespace Outlined

theorem refl (hc : c.Lies source) : Outlined source c [] c where
  onward := .refl c
  lies := hc
  bounded := List.forall_mem_nil _
  takes _ := .inl rfl
  row _ := .nil
  sound _ := List.forall_mem_nil _

/-- Where a mistake was reported, there is nothing to tell but that spans are bounded. -/
theorem of_dirty (honward : c.Onward d) (hd : d.Lies source) (hbounded : ∀ t ∈ trees, t.Bounded source)
    (hdirty : d.diagnostics ≠ []) : Outlined source c trees d where
  onward := honward
  lies := hd
  bounded := hbounded
  takes hclean := absurd hclean hdirty
  row hclean := absurd hclean hdirty
  sound hclean := absurd hclean hdirty

/-- What is read behind a mistake. -/
theorem behind (h : Outlined source d trees e) (honward : c.Onward d) (hdirty : d.diagnostics ≠ []) :
    Outlined source c trees e :=
  of_dirty (honward.trans h.onward) h.lies h.bounded fun hclean => hdirty (h.onward.clean hclean)

theorem le_lastStop (h : Outlined source c trees d) (hc : c.Lies source) (hclean : d.diagnostics = []) :
    c.lastStop ≤ d.lastStop := by
  rcases h.takes hclean with rfl | htakes
  · exact Nat.le_refl _
  · exact Nat.le_trans hc.lastStop_le htakes.le

theorem start_le (h : Outlined source c trees d) (hclean : d.diagnostics = []) :
    c.current.span.start ≤ d.current.span.start := by
  rcases h.takes hclean with rfl | htakes
  · exact Nat.le_refl _
  · exact Nat.le_trans htakes.le h.lies.lastStop_le

/-- **One step behind the other.** -/
theorem append (h : Outlined source c trees d) (h' : Outlined source d trees' e) :
    Outlined source c (trees ++ trees') e where
  onward := h.onward.trans h'.onward
  lies := h'.lies
  bounded := List.forall_mem_append.2 ⟨h.bounded, h'.bounded⟩
  takes hclean := by
    have hclean' := h'.onward.clean hclean
    rcases h'.takes hclean with rfl | htakes'
    · exact h.takes hclean
    rcases h.takes hclean' with rfl | htakes
    · exact .inr htakes'
    · exact .inr ⟨htakes.start, htakes'.stop, Nat.le_trans (h.start_le hclean') htakes'.le⟩
  row hclean :=
    have hclean' := h'.onward.clean hclean
    (h.row hclean').append (h'.row hclean) h.lies.lastStop_le (h.start_le hclean')
      (h'.le_lastStop h.lies hclean)
  sound hclean := List.forall_mem_append.2 ⟨h.sound (h'.onward.clean hclean), h'.sound hclean⟩

/-- **Spans below a span.** -/
theorem node (h : Outlined source c trees d) (hc : c.Lies source)
    (hne : d.diagnostics = [] → d ≠ c) {span : Span}
    (hspan : span = d.spanFrom c.current.span.start) : Outlined source c [.node span trees] d := by
  have htakes : d.diagnostics = [] → Takes source c d :=
    fun hclean => (h.takes hclean).resolve_left (hne hclean)
  have hwhole : d.diagnostics = [] → span = ⟨c.current.span.start, d.lastStop⟩ := fun hclean =>
    hspan.trans (congrArg (Span.mk _) (Nat.max_eq_left (htakes hclean).le))
  refine ⟨h.onward, h.lies, ?_, h.takes, fun hclean => ⟨?_, List.pairwise_singleton _ _⟩, fun hclean => ?_⟩
  · rw [hspan]
    exact List.forall_mem_singleton.2 (.node (h.lies.within_spanFrom hc.start_le) h.bounded)
  · rw [hwhole hclean]
    exact List.forall_mem_singleton.2 ⟨Nat.le_refl _, Nat.le_refl _⟩
  · rw [hwhole hclean]
    have hd := htakes hclean
    exact List.forall_mem_singleton.2 (.node hd.start hd.stop (h.row hclean) (h.sound hclean))

/-- What is not kept leaves no outline. -/
theorem forget (h : Outlined source c trees d) : Outlined source c [] d :=
  ⟨h.onward, h.lies, List.forall_mem_nil _, h.takes, fun _ => .nil, fun _ => List.forall_mem_nil _⟩

theorem token (hc : c.Lies source) (hwhole : c.kind.isWhole = true) :
    Outlined source c [.node c.current.span []] c.advance := by
  obtain ⟨hstart, hstop⟩ := hc.boundary (TokenKind.isWhole_iff.1 hwhole).1
  exact {
    onward := Cursor.onward_advance c
    lies := hc.advance
    bounded := List.forall_mem_singleton.2 (.leaf hc.within_current)
    takes := fun _ => .inr ⟨hstart, hstop, hc.within_current.ordered⟩
    row := fun _ => ⟨List.forall_mem_singleton.2 ⟨Nat.le_refl _, Nat.le_refl _⟩, List.pairwise_singleton _ _⟩
    sound := fun _ => List.forall_mem_singleton.2 (.leaf hstart hstop) }

theorem advance (hc : c.Lies source) (hwhole : c.kind.isWhole = true) : Outlined source c [] c.advance :=
  (token hc hwhole).forget

theorem taken (hc : c.Lies source) {kind : TokenKind} (hat : c.at? kind = true)
    (hwhole : kind.isWhole = true) :
    Outlined source c [] c.advance :=
  advance hc (by rwa [Cursor.kind_of_at? hat])

/-- Spans below one that starts with a token by itself. -/
theorem below (h : Outlined source c.advance trees d) (hc : c.Lies source) {kind : TokenKind}
    (hkind : c.kind = kind)
    (hwhole : kind.isWhole = true) {span : Span} (hspan : span = d.spanFrom c.current.span.start) :
    Outlined source c [.node span trees] d :=
  have hlt := Cursor.left_advance_lt (Cursor.left_pos_of_kind hkind (TokenKind.isWhole_iff.1 hwhole).2)
  @node _ _ _ _ ((advance hc (hkind ▸ hwhole)).append h) hc (fun _ => h.onward.ne_of_lt hlt) _ hspan

theorem expect (hc : c.Lies source) (kind : TokenKind) (hwhole : kind.isWhole = true) :
    Outlined source c [] (c.expect kind) := by
  unfold Cursor.expect
  split
  · rename_i hat
    exact advance hc (by rwa [Cursor.kind_of_at? hat])
  · exact of_dirty (Cursor.onward_report ..) (hc.report hc.within_current) (List.forall_mem_nil _)
      (Cursor.report_dirty _ _ _)

/-- A token at the end. -/
theorem closed (h : Outlined source c trees d) (kind : TokenKind) (hwhole : kind.isWhole = true) :
    Outlined source c trees (d.expect kind) := by
  have hclosed := h.append (expect h.lies kind hwhole)
  rwa [List.append_nil] at hclosed

/-- A token is skipped where something is missing. -/
theorem skip (hc : c.Lies source) (wanted : Wanted) : Outlined source c [] (c.missing wanted).advance :=
  of_dirty ((Cursor.onward_missing ..).trans (Cursor.onward_advance _)) (hc.missing wanted).advance
    (List.forall_mem_nil _) (Cursor.report_dirty _ _ _)

theorem name (hc : c.Lies source) :
    Outlined source c [(Parser.name c).result.1.outline] (Parser.name c).result.2 := by
  rw [name_result]
  split
  · rename_i hname
    exact token hc (TokenKind.isWhole_of_isName hname)
  · exact of_dirty (Cursor.onward_missing ..) (hc.missing _)
      (List.forall_mem_singleton.2 (.leaf hc.within_current)) (Cursor.report_dirty _ _ _)

end Outlined

end Parser

end GraphClient
