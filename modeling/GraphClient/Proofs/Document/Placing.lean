import GraphClient.Proofs.Document.Outline
import GraphClient.Proofs.Document.Derivation

/-! The outline of what is read. Every call of the reader outlines what it gives, if the calls within
it do (`body_outlines`); so all calls do (`run_outlined`), and with them the document: its spans are
bounded, and they are sound if no mistake was met (`outline_sound`). -/

namespace GraphClient

namespace Parser

variable {source : String} {c d : Cursor} {n : Nat} {here : Cursor} {β : Type}

namespace Call

/-- The outline of what a call gives. A call that is told where something starts gives what stands
below it. -/
def outlines : (f : Call) → f.Value → List Outline
  | definitions, list => list.map Definition.outline
  | definition, result => result.toList.map Definition.outline
  | skipDefinition _, _ => []
  | operation _ _, result => result.outlines
  | operationBody _ _ _, result => result.bodyOutlines
  | fragment _, result => result.outlines
  | variableDefinitions, list | variableList, list => list.map VariableDefinition.outline
  | variableDefinition _, result => result.outlines
  | defaultLiteral, value => value.toList.map Literal.outline
  | typeExpr, type => [type.outline]
  | selectionSet, set => [set.outline]
  | openedSet _, set => Selection.outlines set.selections
  | selections, list => list.map Selection.outline
  | selection, result => result.toList.map Selection.outline
  | arguments, list | argumentList, list => list.map Argument.outline
  | directives, list => list.map Directive.outline
  | literal, value => [value.outline]
  | literalList, list => Literal.outlines list
  | literalFields, list => Literal.fieldOutlines list

/-- What a call relies on: a place that it reports lies in the text, and where something
is skipped a mistake was met. -/
def Ready (source : String) : Call → Cursor → Prop
  | openedSet start, _ => start ≤ Text.byteLength source.toList
  | skipDefinition _, c => c.diagnostics ≠ []
  | _, _ => True

end Call

/-- That a script that starts from a cursor outlines what it comes to, if its calls do. -/
def Script.Outlines (source : String) (outlines : β → List Outline) (c : Cursor) : Script β → Prop
  | .done value d => Outlined source c (outlines value) d
  | .call f d next => d.Lies source ∧ f.Ready source d ∧
      (Outlined source d (f.outlines (f.run d).1) (f.run d).2 →
        (next (f.run d).1 (f.run d).2).Outlines source outlines c)

theorem Script.Outlines.run {outlines : β → List Outline} {s : Script β} (h : s.Outlines source outlines c)
    (hdescends : s.Descends n here) (hcalls : ∀ (g : Call) (d : Cursor), g.need d < n → d.Lies source →
      g.Ready source d → Outlined source d (g.outlines (g.run d).1) (g.run d).2) :
    Outlined source c (outlines s.run.1) s.run.2 := by
  induction s generalizing here with
  | done => exact h
  | call f d next ih => exact ih _ _ (h.2.2 (hcalls f d hdescends.2.1 h.1 h.2.1)) hdescends.2.2

theorem span_openedSet (start : Nat) (c : Cursor) :
    (openedSet start c).result.1.span = (openedSet start c).result.2.spanFrom start := by
  rw [openedSet_result]
  rfl

theorem wordedBody_outlines (hc : c.Lies source) {word : Keyword} (hkind : c.kind = .keyword word) :
    (wordedBody c word).Outlines source (Call.outlines .definition) c := by
  unfold wordedBody
  split
  · exact ⟨hc.advance, trivial, fun h => h.below hc hkind rfl (span_operation ..)⟩
  · split
    · exact ⟨hc.advance, trivial, fun h => h.below hc hkind rfl rfl⟩
    · split
      · have hdirty := Cursor.report_dirty c (.typeSystem word) c.current.span
        exact ⟨(hc.report hc.within_current).advance, hdirty, fun h =>
          h.behind ((Cursor.onward_report ..).trans (Cursor.onward_advance _)) hdirty⟩
      · exact Outlined.skip hc _

/-- What stands between braces that are already open. -/
theorem outlined_set (hc : c.Lies source) (hkind : c.kind = .mark .openBrace) {set : SelectionSet}
    (h : Outlined source c.advance (Selection.outlines set.selections) d)
    (hspan : set.span = d.spanFrom c.current.span.start) : Outlined source c [set.outline] d := by
  rw [SelectionSet.outline_eq]
  exact h.below hc hkind rfl hspan

theorem definitionBody_outlines (hc : c.Lies source) {kind : TokenKind} (hkind : c.kind = kind) :
    (definitionBody c kind).Outlines source (Call.outlines .definition) c := by
  fun_cases definitionBody c kind with
  | case1 =>
      refine ⟨hc.advance, hc.start_le, fun h => ?_⟩
      have hset := outlined_set hc hkind h (span_openedSet ..)
      have hlt := Cursor.left_advance_lt (Cursor.left_pos_of_kind hkind (by decide))
      exact hset.node hc (fun _ => h.onward.ne_of_lt hlt) rfl
  | case2 => exact Outlined.advance hc (by rw [hkind]; rfl)
  | case3 => exact Outlined.advance hc (by rw [hkind]; rfl)
  | case4 word => exact wordedBody_outlines hc hkind
  | case5 => exact Outlined.skip hc _

theorem literalOf_outlined (hc : c.Lies source) {kind : TokenKind} (hkind : c.kind = kind)
    (hlist : kind ≠ .mark .openBracket) (hobject : kind ≠ .mark .openBrace) :
    Outlined source c [(literalOf c kind).1.outline] (literalOf c kind).2 := by
  have htoken (hwhole : kind.isWhole = true) : Outlined source c [.node c.current.span []] c.advance :=
    Outlined.token hc (hkind ▸ hwhole)
  fun_cases literalOf c kind with
  | case1 => exact (Outlined.advance hc (by rw [hkind]; rfl)).append (Outlined.name hc.advance)
  | case2 =>
      rw [intLiteral_result]
      cases LiteralText.int? c.current.text with
      | some value => exact htoken rfl
      | none =>
          exact .of_dirty ((Cursor.onward_advance c).trans (Cursor.onward_report ..))
            (hc.advance.report hc.within_current) (List.forall_mem_singleton.2 (.leaf hc.within_current))
            (Cursor.report_dirty _ _ _)
  | case3 => exact htoken rfl
  | case4 => exact htoken rfl
  | case5 => exact htoken rfl
  | case6 => exact htoken rfl
  | case7 => exact htoken rfl
  | case8 => exact htoken rfl
  | case9 => exact absurd rfl hlist
  | case10 => exact absurd rfl hobject
  | case11 => exact Outlined.name hc
  | case12 =>
      exact .of_dirty ((Cursor.onward_missing ..).trans (Cursor.onward_advance _)) (hc.missing _).advance
        (List.forall_mem_singleton.2 (.leaf hc.within_current)) (Cursor.report_dirty _ _ _)

theorem literalBody_outlines (hc : c.Lies source) {kind : TokenKind} (hkind : c.kind = kind) :
    (literalBody c kind).Outlines source (Call.outlines .literal) c := by
  fun_cases literalBody c kind with
  | case1 =>
      exact ⟨hc.advance, trivial, fun h => (h.closed (.mark .closeBracket) rfl).below hc hkind rfl rfl⟩
  | case2 =>
      exact ⟨hc.advance, trivial, fun h => (h.closed (.mark .closeBrace) rfl).below hc hkind rfl rfl⟩
  | case3 _ hlist hobject => exact literalOf_outlined hc hkind hlist hobject

/-- A type, once what stands in front of the bang is outlined. -/
theorem bangBody_outlines (hc : c.Lies source) {type : TypeExpr} (h : Outlined source c [type.outline] d) :
    (bangBody c.current.span.start type d).Outlines source (Call.outlines .typeExpr) c := by
  unfold bangBody
  split
  · rename_i hat
    have hbang := h.append (Outlined.taken h.lies hat rfl)
    rw [List.append_nil] at hbang
    have hlt := Nat.lt_of_lt_of_le (left_advance_lt_of_at? hat (by decide)) h.onward.left_le
    exact hbang.node hc (fun _ => (Cursor.Onward.refl _).ne_of_lt hlt) rfl
  · exact h

/-- A name, behind another one and a colon if there is one. -/
theorem keyedName_outlined (hc : c.Lies source) :
    Outlined source c ((keyedName (name c).result.1 (name c).result.2).result.1.1.toList.map Name.outline ++
      [(keyedName (name c).result.1 (name c).result.2).result.1.2.outline])
      (keyedName (name c).result.1 (name c).result.2).result.2 := by
  have hfirst := Outlined.name hc
  rw [keyedName_result]
  split
  · rename_i hat
    have hcolon := hfirst.append (Outlined.taken hfirst.lies hat rfl)
    exact hcolon.append (Outlined.name hfirst.lies.advance)
  · exact hfirst

theorem fieldBody_outlines (hc : c.Lies source) (hname : c.kind.isName = true) :
    (fieldBody c).Outlines source (Call.outlines .selection) c := by
  have htarget := keyedName_outlined hc
  have hlt := Nat.lt_of_le_of_lt (onward_keyedName (name c).result.1 _).left_le (name_next_lt hname)
  refine ⟨htarget.lies, trivial, fun hlist => ⟨hlist.lies, trivial, fun hmarks => ?_⟩⟩
  dsimp only
  split
  · refine ⟨hmarks.lies, trivial, fun hset => ?_⟩
    have hall := htarget.append (hlist.append (hmarks.append hset))
    rw [List.append_assoc] at hall
    exact hall.node hc (fun _ => ((hlist.onward.trans hmarks.onward).trans hset.onward).ne_of_lt hlt) rfl
  · have hall := htarget.append (hlist.append (hmarks.append (.refl hmarks.lies)))
    rw [List.append_assoc] at hall
    exact hall.node hc (fun _ => (hlist.onward.trans hmarks.onward).ne_of_lt hlt) rfl

theorem spreadBody_outlines (hc : c.Lies source) (hkind : c.kind = .mark .spread) :
    (spreadBody c.current.span.start c.advance).Outlines source (Call.outlines .selection) c := by
  unfold spreadBody
  split
  · rename_i hat
    have hcondition := (Outlined.taken hc.advance hat rfl).append (Outlined.name hc.advance.advance)
    exact ⟨hcondition.lies, trivial, fun hmarks => ⟨hmarks.lies, trivial, fun hset =>
      (hcondition.append (hmarks.append hset)).below hc hkind rfl rfl⟩⟩
  · split
    · exact ⟨hc.advance, trivial, fun hmarks => ⟨hmarks.lies, trivial, fun hset =>
        (hmarks.append hset).below hc hkind rfl rfl⟩⟩
    · have htarget := Outlined.name hc.advance
      exact ⟨htarget.lies, trivial, fun hmarks => (htarget.append hmarks).below hc hkind rfl rfl⟩

theorem definitions_outlines (hc : c.Lies source) :
    (body .definitions c).Outlines source (Call.outlines .definitions) c := by
  rw [body]
  split
  · exact Outlined.refl hc
  · refine ⟨hc, trivial, fun hfirst => ⟨hfirst.lies, trivial, fun hrest => ?_⟩⟩
    have hall := hfirst.append hrest
    rwa [Call.outlines, Call.outlines, ← List.map_append] at hall

theorem selections_outlines (hc : c.Lies source) :
    (body .selections c).Outlines source (Call.outlines .selections) c := by
  rw [body]
  split
  · exact Outlined.refl hc
  · refine ⟨hc, trivial, fun hfirst => ⟨hfirst.lies, trivial, fun hrest => ?_⟩⟩
    have hall := hfirst.append hrest
    rwa [Call.outlines, Call.outlines, ← List.map_append] at hall

/-- What is skipped was a mistake already. -/
theorem skipDefinition_outlines (depth : Nat) (hc : c.Lies source) (hdirty : c.diagnostics ≠ []) :
    (body (.skipDefinition depth) c).Outlines source (Call.outlines (.skipDefinition depth)) c := by
  have hnext : ∀ depth', (Script.call (.skipDefinition depth') c.advance .done).Outlines source
      (Call.skipDefinition depth).outlines c :=
    fun _ => ⟨hc.advance, hdirty, fun h => h.behind (Cursor.onward_advance c) hdirty⟩
  rw [body]
  split
  · exact Outlined.refl hc
  · split
    · exact hnext _
    · split
      · split
        · exact .of_dirty (Cursor.onward_advance c) hc.advance (List.forall_mem_nil _) hdirty
        · exact hnext _
      · split
        · exact Outlined.refl hc
        · exact hnext _

theorem fragment_outlines (start : Nat) (hc : c.Lies source) :
    (body (.fragment start) c).Outlines source (Call.outlines (.fragment start)) c := by
  have htarget := Outlined.name hc
  have hon := htarget.closed (.keyword .on) rfl
  have hcondition := hon.append (Outlined.name hon.lies)
  exact ⟨hcondition.lies, trivial, fun hmarks => ⟨hmarks.lies, trivial, fun hset =>
    hcondition.append (hmarks.append hset)⟩⟩

theorem variableList_outlines (hc : c.Lies source) :
    (body .variableList c).Outlines source (Call.outlines .variableList) c := by
  rw [body]
  split
  · exact Outlined.refl hc
  · split
    · rename_i hat
      refine ⟨hc.advance, trivial, fun hfirst => ⟨hfirst.lies, trivial, fun hrest => ?_⟩⟩
      exact (hfirst.below hc (Cursor.kind_of_at? hat) rfl rfl).append hrest
    · rename_i hdollar
      have hdirty : (c.expect (.mark .dollar)).advance.diagnostics ≠ [] := by
        rw [Cursor.expect, if_neg hdollar]
        exact Cursor.report_dirty _ _ _
      exact ⟨(hc.expect _).advance, trivial, fun h =>
        h.behind ((Cursor.onward_expect ..).trans (Cursor.onward_advance _)) hdirty⟩

theorem variableDefinition_outlines (start : Nat) (hc : c.Lies source) :
    (body (.variableDefinition start) c).Outlines source (Call.outlines (.variableDefinition start)) c := by
  have htarget := (Outlined.name hc).closed (.mark .colon) rfl
  refine ⟨htarget.lies, trivial, fun htype => ⟨htype.lies, trivial, fun hdefault => ⟨hdefault.lies, trivial,
    fun hmarks => ?_⟩⟩⟩
  have hall := htarget.append (htype.append (hdefault.append hmarks.forget))
  rwa [List.append_nil] at hall

theorem typeExpr_outlines (hc : c.Lies source) :
    (body .typeExpr c).Outlines source (Call.outlines .typeExpr) c := by
  rw [body]
  split
  · rename_i hat
    exact ⟨hc.advance, trivial, fun h => bangBody_outlines hc
      ((h.closed (.mark .closeBracket) rfl).below hc (Cursor.kind_of_at? hat) rfl rfl)⟩
  · exact bangBody_outlines hc (Outlined.name hc)

theorem selectionSet_outlines (hc : c.Lies source) :
    (body .selectionSet c).Outlines source (Call.outlines .selectionSet) c := by
  have hopen := Outlined.expect hc (.mark .openBrace) rfl
  refine ⟨hopen.lies, hc.start_le, fun h => ?_⟩
  rw [Script.Outlines, Call.outlines, SelectionSet.outline_eq]
  refine (hopen.append h).node hc (fun hclean => ?_) (span_openedSet ..)
  -- without a mistake the brace was there
  obtain ⟨hkind, hexpect⟩ := Cursor.expect_eq_advance (h.onward.clean hclean)
  have hlt := Cursor.left_advance_lt (Cursor.left_pos_of_kind hkind (by decide))
  rw [← hexpect] at hlt
  exact h.onward.ne_of_lt hlt

theorem openedSet_outlines {start : Nat} (hc : c.Lies source)
    (hready : (Call.openedSet start).Ready source c) :
    (body (.openedSet start) c).Outlines source (Call.outlines (.openedSet start)) c := by
  refine ⟨hc, trivial, fun h => ?_⟩
  rw [Call.outlines, ← Selection.outlines_eq_map] at h
  have hclosed := h.closed (.mark .closeBrace) rfl
  dsimp only [Script.Outlines]
  split
  · exact .of_dirty (hclosed.onward.trans (Cursor.onward_report ..))
      (hclosed.lies.report (hclosed.lies.within_spanFrom hready)) h.bounded (Cursor.report_dirty _ _ _)
  · exact hclosed

theorem selection_outlines (hc : c.Lies source) :
    (body .selection c).Outlines source (Call.outlines .selection) c := by
  rw [body]
  split
  · rename_i hat
    exact spreadBody_outlines hc (Cursor.kind_of_at? hat)
  · split
    · rename_i hname
      exact fieldBody_outlines hc hname
    · exact Outlined.skip hc _

theorem argumentList_outlines (hc : c.Lies source) :
    (body .argumentList c).Outlines source (Call.outlines .argumentList) c := by
  rw [body]
  split
  · exact Outlined.refl hc
  · split
    · rename_i hname
      have htarget := (Outlined.name hc).closed (.mark .colon) rfl
      have hlt := Nat.lt_of_le_of_lt (Cursor.left_expect_le _ (.mark .colon)) (name_next_lt hname)
      exact ⟨htarget.lies, trivial, fun hvalue => ⟨hvalue.lies, trivial, fun hrest =>
        ((htarget.append hvalue).node hc (fun _ => hvalue.onward.ne_of_lt hlt) rfl).append hrest⟩⟩
    · have hdirty := Cursor.report_dirty c (.missing .argumentName c.atEnd) c.current.span
      exact ⟨(hc.missing _).advance, trivial, fun h =>
        h.behind ((Cursor.onward_missing ..).trans (Cursor.onward_advance _)) hdirty⟩

theorem directives_outlines (hc : c.Lies source) :
    (body .directives c).Outlines source (Call.outlines .directives) c := by
  rw [body]
  split
  · rename_i hat
    have htarget := Outlined.name hc.advance
    refine ⟨htarget.lies, trivial, fun hlist => ⟨hlist.lies, trivial, fun hrest => ?_⟩⟩
    exact ((htarget.append hlist).below hc (Cursor.kind_of_at? hat) rfl rfl).append hrest
  · exact Outlined.refl hc

theorem literalFields_outlines (hc : c.Lies source) :
    (body .literalFields c).Outlines source (Call.outlines .literalFields) c := by
  rw [body]
  split
  · exact Outlined.refl hc
  · have hfield := (Outlined.name hc).closed (.mark .colon) rfl
    exact ⟨hfield.lies, trivial, fun hvalue => ⟨hvalue.lies, trivial, fun hrest =>
      (hfield.append hvalue).append hrest⟩⟩

/-- **Every call outlines what it gives**, if the calls within it do. -/
theorem body_outlines (f : Call) (hc : c.Lies source) (hready : f.Ready source c) :
    (body f c).Outlines source f.outlines c := by
  cases f with
  | definitions => exact definitions_outlines hc
  | definition => exact definitionBody_outlines hc rfl
  | skipDefinition depth => exact skipDefinition_outlines depth hc hready
  | operation start kind =>
      rw [body]
      split
      · exact ⟨(Outlined.name hc).lies, trivial, fun h => (Outlined.name hc).append h⟩
      · exact ⟨hc, trivial, fun h => h⟩
  | operationBody start kind target =>
      exact ⟨hc, trivial, fun hlist => ⟨hlist.lies, trivial, fun hmarks => ⟨hmarks.lies, trivial, fun hset =>
        hlist.append (hmarks.append hset)⟩⟩⟩
  | fragment start => exact fragment_outlines start hc
  | variableDefinitions =>
      rw [body]
      split
      · rename_i hat
        exact ⟨hc.advance, trivial, fun hlist =>
          (Outlined.taken hc hat rfl).append (hlist.closed (.mark .closeParen) rfl)⟩
      · exact Outlined.refl hc
  | variableList => exact variableList_outlines hc
  | variableDefinition start => exact variableDefinition_outlines start hc
  | defaultLiteral =>
      rw [body]
      split
      · rename_i hat
        exact ⟨hc.advance, trivial, fun h => (Outlined.taken hc hat rfl).append h⟩
      · exact Outlined.refl hc
  | typeExpr => exact typeExpr_outlines hc
  | selectionSet => exact selectionSet_outlines hc
  | openedSet start => exact openedSet_outlines hc hready
  | selections => exact selections_outlines hc
  | selection => exact selection_outlines hc
  | arguments =>
      rw [body]
      split
      · rename_i hat
        exact ⟨hc.advance, trivial, fun hlist =>
          (Outlined.taken hc hat rfl).append (hlist.closed (.mark .closeParen) rfl)⟩
      · exact Outlined.refl hc
  | argumentList => exact argumentList_outlines hc
  | directives => exact directives_outlines hc
  | literal => exact literalBody_outlines hc rfl
  | literalList =>
      rw [body]
      split
      · exact Outlined.refl hc
      · exact ⟨hc, trivial, fun hfirst => ⟨hfirst.lies, trivial, fun hrest => hfirst.append hrest⟩⟩
  | literalFields => exact literalFields_outlines hc

/-- **Every call outlines what it gives.** -/
theorem run_outlined (f : Call) (hc : c.Lies source) (hready : f.Ready source c) :
    Outlined source c (f.outlines (f.run c).1) (f.run c).2 := by
  induction hn : f.need c using Nat.strongRecOn generalizing f c with
  | ind n ih =>
      have hbody := (body_outlines f hc hready).run (body_descends f c)
        fun g d hless hd hg => ih _ (hn ▸ hless) g hd hg rfl
      rwa [body_run] at hbody

end Parser

variable {source : String}

theorem Cursor.lies_ofSource (source : String) : (Cursor.ofSource source).Lies source := by
  obtain ⟨tokens, htokens⟩ := Lexer.tokensFrom_eq_append 0 source.toList
  have hstream : (Cursor.ofSource source).stream = tokenize source := by
    rw [ofSource, tokenize, htokens, List.dropLast_concat, List.getLast?_concat]
    rfl
  have hlaid : Lexer.Laid source.toList 0 (tokenize source) := @Lexer.laid_tokensFrom _ _ [] rfl
  exact ⟨hstream ▸ hlaid, List.forall_mem_nil _⟩

/-- The definitions of a document are outlined. -/
theorem outlined_definitions (source : String) : Parser.Outlined source (.ofSource source)
    ((parseDocument source).document.definitions.map Definition.outline)
    (Parser.definitions (.ofSource source)).result.2 :=
  Parser.run_outlined .definitions (Cursor.lies_ofSource source) trivial

theorem diagnostics_within {d : Diagnostic} (h : d ∈ (parseDocument source).diagnostics) :
    d.span.Within source :=
  (outlined_definitions source).lies.diagnostics d h

/-- **The spans of a document lie in the text**, however malformed it is. -/
theorem outline_bounded (source : String) : (parseDocument source).document.outline.Bounded source :=
  have h := outlined_definitions source
  .node (h.lies.within_spanFrom (Cursor.lies_ofSource source).start_le) h.bounded

/-- **The spans of a document without mistakes are sound.** -/
theorem outline_sound (hclean : (parseDocument source).diagnostics = []) :
    (parseDocument source).document.outline.Sound source := by
  have hc := Cursor.lies_ofSource source
  have h := outlined_definitions source
  cases hend : (Cursor.ofSource source).atEnd with
  | true =>
      -- nothing was read, and nothing is spanned
      have hread : (Parser.definitions (.ofSource source)).result = ([], .ofSource source) := by
        rw [Parser.definitions_result, if_pos hend]
      have hstart := (hc.boundary (by rw [Cursor.kind_of_atEnd hend]; decide)).1
      change Outline.Sound source (.node ((Parser.definitions (.ofSource source)).result.2.spanFrom
        (Cursor.ofSource source).current.span.start)
        ((Parser.definitions (.ofSource source)).result.1.map Definition.outline))
      rw [hread, Cursor.spanFrom, Nat.max_eq_right hc.lastStop_le]
      exact .leaf hstart hstart
  | false =>
      have hne : (Parser.definitions (.ofSource source)).result.2 ≠ .ofSource source := fun heq => by
        have hpos := Cursor.left_pos_of_not_atEnd hend
        rw [← heq, Cursor.left, Parser.tokens_definitions] at hpos
        exact Nat.lt_irrefl _ hpos
      exact (h.node hc (fun _ => hne) rfl).sound hclean _ (List.mem_singleton_self _)

-- Name and selections of an operation, with a field in them, and an argument of the field.
example : (parseDocument "query Q \x7b a(x: 1) \x7d").document.outline =
    .node ⟨0, 19⟩ [.node ⟨0, 19⟩ [.node ⟨6, 7⟩ [], .node ⟨8, 19⟩ [.node ⟨10, 17⟩ [.node ⟨10, 11⟩ [],
      .node ⟨12, 16⟩ [.node ⟨12, 13⟩ [], .node ⟨15, 16⟩ []]]]]] := by cbv

/-- **The text of a definition is the definition**: it is read as a document without mistakes, of just it. -/
theorem definition_alone (hclean : (parseDocument source).diagnostics = []) {d : Definition}
    (hd : d ∈ (parseDocument source).document.definitions) :
    (parseDocument (d.span.text source)).diagnostics = [] ∧
      (parseDocument (d.span.text source)).document.definitions.map Definition.bare = [d.bare] := by
  obtain ⟨p, rfl, hcut⟩ := exists_piece hclean hd
  have hjoined : (p.definition.span.text source).toList = Piece.joined [p] := by
    rw [hcut.text, String.toList_ofList]
    rfl
  obtain ⟨hput, hclean'⟩ := parseDocument_joined hjoined
  refine ⟨hclean', ?_⟩
  generalize (parseDocument (p.definition.span.text source)).document.definitions = definitions at hput
  obtain _ | ⟨⟨_, _, _, hlike⟩, hrest⟩ := hput
  obtain rfl := List.forall₂_nil_left_iff.1 hrest
  rw [List.map_singleton, hlike.bare]

end GraphClient
