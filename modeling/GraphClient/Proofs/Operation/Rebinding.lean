import GraphClient.Proofs.Document.Pieces
import GraphClient.Proofs.Operation.Binding

/-! The text of an operation by itself. It is the text of the operation and of every fragment that it
uses, each once and in the order of first use; read again, these are the definitions that it came
from, at other places. What binding an operation looks up are the fragments that it uses and nothing
else, and it never looks at a place. So binding the text gives the operation again. -/

namespace GraphClient.Bind

variable {c c' : Context} {stack inner : List String} {typeName condition : String} {s s' : Selection}
  {list list' : List Selection} {p opened q : Progress}

theorem Progress.subset_use (p : Progress) (name : String) : p.used ⊆ (p.use name).used := by
  unfold use
  split
  · exact List.Subset.refl _
  · exact List.subset_append_left _ _

theorem Progress.mem_use (p : Progress) (name : String) : name ∈ (p.use name).used := by
  unfold use
  split
  · rename_i hcontains
    simpa using hcontains
  · exact List.mem_append_right _ (List.mem_singleton_self name)

/-- What is known of the fragments in use: each is there once, and has a definition. -/
structure Context.Uses (c : Context) (used : List String) : Prop where
  nodup : used.Nodup
  defined : ∀ name ∈ used, ∃ definition, c.fragments.get? name = some definition

theorem Context.Uses.use {name : String} {definition : FragmentDefinition} (h : c.Uses p.used)
    (hdefinition : c.fragments.get? name = some definition) : c.Uses (p.use name).used := by
  unfold Progress.use
  split
  · exact h
  · rename_i hcontains
    have hnew : name ∉ p.used := by simpa using hcontains
    refine ⟨List.nodup_append.2 ⟨h.nodup, List.nodup_singleton name, ?_⟩, ?_⟩
    · intro other hother _ hname heq
      exact hnew (List.mem_singleton.1 hname ▸ heq ▸ hother)
    · intro other hother
      rcases List.mem_append.1 hother with hother | hother
      · exact h.defined other hother
      · exact ⟨definition, List.mem_singleton.1 hother ▸ hdefinition⟩

theorem Opens.used (h : Opens c stack typeName p s inner condition list opened) :
    p.used ⊆ opened.used ∧ (c.Uses p.used → c.Uses opened.used) := by
  cases h with
  | inline => exact ⟨List.Subset.refl _, id⟩
  | spread hdefinition _ => exact ⟨p.subset_use _, fun h => h.use hdefinition⟩

theorem Binds.used (h : Binds c stack typeName list p q) :
    p.used ⊆ q.used ∧ (c.Uses p.used → c.Uses q.used) := by
  induction h with
  | nil => exact ⟨List.Subset.refl _, id⟩
  | typename _ _ ih => exact ih
  | leaf _ _ _ _ ih => exact ih
  | nested _ _ _ _ _ ihnested ih => exact ⟨List.Subset.trans ihnested.1 ih.1, fun h => ih.2 (ihnested.2 h)⟩
  | same hopens _ _ ihlist ih =>
      exact ⟨List.Subset.trans hopens.used.1 (List.Subset.trans ihlist.1 ih.1),
        fun h => ih.2 (ihlist.2 (hopens.used.2 h))⟩
  | variant hopens _ _ _ _ ihvariant ih =>
      exact ⟨List.Subset.trans hopens.used.1 (List.Subset.trans ihvariant.1 ih.1),
        fun h => ih.2 (ihvariant.2 (hopens.used.2 h))⟩

theorem texts_of_bare {name name' : Option Name} (h : name'.map Name.bare = name.map Name.bare) :
    name'.map (·.text) = name.map (·.text) := by
  have htext : ∀ name : Option Name, name.map (·.text) = (name.map Name.bare).map (·.text) := fun name => by
    rw [Option.map_map]
    rfl
  rw [htext name', htext name, h]

theorem exists_cons_of_bare {rest : List Selection}
    (h : Selection.bareList list' = Selection.bareList (s :: rest)) :
    ∃ s' rest', list' = s' :: rest' ∧ s'.bare = s.bare ∧ Selection.bareList rest' =
      Selection.bareList rest := by
  cases list' with
  | nil => cases h
  | cons s' rest' => exact ⟨s', rest', rfl, (List.cons.inj h).1, (List.cons.inj h).2⟩

theorem exists_field_of_bare {name : Name} {arguments : List Argument} {directives : List Directive}
    {set : Option SelectionSet} {span : Span}
    (h : s'.bare = (Selection.field none name arguments directives set span).bare) :
    ∃ name' arguments' directives' set' span', s' = .field none name' arguments' directives' set' span' ∧
      name'.text = name.text ∧ SelectionSet.bare? set' = SelectionSet.bare? set := by
  cases s' with
  | field key' name' arguments' directives' set' span' =>
      rw [Selection.bare, Selection.bare, Selection.field.injEq] at h
      obtain ⟨hkey, hname, -, -, hset, -⟩ := h
      obtain rfl : key' = none := by
        cases key' with
        | none => rfl
        | some key' => cases hkey
      exact ⟨name', arguments', directives', set', span', rfl, Name.bare_eq_iff.1 hname, hset⟩
  | spread => rw [Selection.bare, Selection.bare] at h; cases h
  | inline => rw [Selection.bare, Selection.bare] at h; cases h

theorem SelectionSet.eq_none_of_bare {set : Option SelectionSet} (h : SelectionSet.bare? set = none) :
    set = none := by
  cases set with
  | none => rfl
  | some set => cases h

theorem SelectionSet.exists_mk_of_bare {set : Option SelectionSet} {span : Span}
    (h : SelectionSet.bare? set = SelectionSet.bare? (some (.mk list span))) :
    ∃ list' span', set = some (.mk list' span') ∧ Selection.bareList list' = Selection.bareList list := by
  match set with
  | none => cases h
  | some (.mk list' span') =>
      rw [SelectionSet.bare?, SelectionSet.bare?, SelectionSet.bare, SelectionSet.bare, Option.some.injEq,
        SelectionSet.mk.injEq] at h
      exact ⟨list', span', rfl, h.1⟩

theorem SelectionSet.bareList_selections {set set' : SelectionSet} (h : set'.bare = set.bare) :
    Selection.bareList set'.selections = Selection.bareList set.selections := by
  obtain ⟨list, span⟩ := set
  obtain ⟨list', span'⟩ := set'
  rw [SelectionSet.bare, SelectionSet.bare, SelectionSet.mk.injEq] at h
  exact h.1

/-- That one context has the fragments of another one, as far as they are in use, at other places. -/
structure Context.Serves (c' c : Context) (used : List String) : Prop where
  graph : c'.graph = c.graph
  fragments : ∀ name ∈ used, ∀ definition, c.fragments.get? name = some definition →
    ∃ definition', c'.fragments.get? name = some definition' ∧ definition'.bare = definition.bare

theorem Context.Serves.mono {used less : List String} (h : c'.Serves c used) (hsub : less ⊆ used) :
    c'.Serves c less :=
  ⟨h.graph, fun name hname => h.fragments name (hsub hname)⟩

theorem Opens.serve (h : Opens c stack typeName p s inner condition list opened)
    (hserves : c'.Serves c opened.used)
    (hbare : s'.bare = s.bare) : ∃ list', Opens c' stack typeName p s' inner condition list' opened ∧
      Selection.bareList list' = Selection.bareList list := by
  cases h with
  | @inline condition directives list setSpan span =>
      cases s' with
      | inline condition' directives' set' span' =>
          obtain ⟨list', setSpan'⟩ := set'
          rw [Selection.bare, Selection.bare, Selection.inline.injEq] at hbare
          obtain ⟨hcondition, -, hset, -⟩ := hbare
          rw [← texts_of_bare hcondition]
          exact ⟨list', .inline, SelectionSet.bareList_selections hset⟩
      | field => rw [Selection.bare, Selection.bare] at hbare; cases hbare
      | spread => rw [Selection.bare, Selection.bare] at hbare; cases hbare
  | @spread name directives span definition hdefinition hnew =>
      cases s' with
      | spread name' directives' span' =>
          rw [Selection.bare, Selection.bare, Selection.spread.injEq] at hbare
          have hname : name'.text = name.text := Name.bare_eq_iff.1 hbare.1
          obtain ⟨definition', hdefinition', hdefinitionBare⟩ :=
            hserves.fragments name.text (p.mem_use name.text) definition hdefinition
          rw [FragmentDefinition.bare, FragmentDefinition.bare,
            FragmentDefinition.mk.injEq] at hdefinitionBare
          obtain ⟨-, hcondition, -, hset, -⟩ := hdefinitionBare
          rw [← hname] at hdefinition' hnew ⊢
          rw [← Name.bare_eq_iff.1 hcondition]
          exact ⟨_, .spread hdefinition' hnew, SelectionSet.bareList_selections hset⟩
      | field => rw [Selection.bare, Selection.bare] at hbare; cases hbare
      | inline => rw [Selection.bare, Selection.bare] at hbare; cases hbare

/-- **Binding looks at no place, and at no fragment but those that it uses.** -/
theorem Binds.serve (h : Binds c stack typeName list p q) (hserves : c'.Serves c q.used)
    (hbare : Selection.bareList list' = Selection.bareList list) : Binds c' stack typeName list' p q := by
  induction h generalizing list' with
  | nil =>
      cases list' with
      | nil => exact .nil
      | cons s' rest' => cases hbare
  | typename hname _ ih =>
      obtain ⟨s', rest', rfl, hs, hrest⟩ := exists_cons_of_bare hbare
      obtain ⟨name', arguments', directives', set', span', rfl, htext, hset⟩ := exists_field_of_bare hs
      obtain rfl := SelectionSet.eq_none_of_bare hset
      exact .typename (htext.trans hname) (ih hserves hrest)
  | leaf hname hdeclares hleaf _ ih =>
      obtain ⟨s', rest', rfl, hs, hrest⟩ := exists_cons_of_bare hbare
      obtain ⟨name', arguments', directives', set', span', rfl, htext, hset⟩ := exists_field_of_bare hs
      obtain rfl := SelectionSet.eq_none_of_bare hset
      rw [← htext] at hname hdeclares
      exact .leaf hname (hserves.graph.symm ▸ hdeclares) hleaf (htext ▸ ih hserves hrest)
  | nested hname hdeclares hcomposite _ hrestBinds ihnested ih =>
      obtain ⟨s', rest', rfl, hs, hrest⟩ := exists_cons_of_bare hbare
      obtain ⟨name', arguments', directives', set', span', rfl, htext, hset⟩ := exists_field_of_bare hs
      obtain ⟨nestedList, nestedSpan, rfl, hnestedBare⟩ := SelectionSet.exists_mk_of_bare hset
      rw [← htext] at hname hdeclares
      exact .nested hname (hserves.graph.symm ▸ hdeclares) hcomposite
        (ihnested (hserves.mono hrestBinds.used.1) hnestedBare) (htext ▸ ih hserves hrest)
  | same hopens hlist hrestBinds ihlist ih =>
      obtain ⟨s', rest', rfl, hs, hrest⟩ := exists_cons_of_bare hbare
      have hmiddle := hserves.mono hrestBinds.used.1
      obtain ⟨opened', hopens', hopenedBare⟩ := hopens.serve (hmiddle.mono hlist.used.1) hs
      exact .same hopens' (ihlist hmiddle hopenedBare) (ih hserves hrest)
  | variant hopens hother hadmits hvariant hrestBinds ihvariant ih =>
      obtain ⟨s', rest', rfl, hs, hrest⟩ := exists_cons_of_bare hbare
      have hmiddle := hserves.mono hrestBinds.used.1
      obtain ⟨opened', hopens', hopenedBare⟩ := hopens.serve (hmiddle.mono hvariant.used.1) hs
      exact .variant hopens' hother (hserves.graph.symm ▸ hadmits)
        (ihvariant hmiddle hopenedBare) (ih hserves hrest)

end GraphClient.Bind

namespace GraphClient

variable {source source' : String}

theorem Document.fragment_mem {document : Document} {name : String} {definition : FragmentDefinition}
    (h : document.fragmentTable.get? name = some definition) :
    .fragment definition ∈ document.definitions ∧ definition.name.text = name := by
  obtain ⟨f, hf, heq⟩ := List.mem_map.1 (Table.mem_of_mem_ofList (Table.mem_of_get? h))
  cases heq
  obtain ⟨d, hd, hsome⟩ := List.mem_filterMap.1 hf
  cases d with
  | operation => cases hsome
  | fragment =>
      cases hsome
      exact ⟨hd, rfl⟩

theorem Document.operation_mem {document : Document} {definition : OperationDefinition}
    (h : definition ∈ document.operations) : .operation definition ∈ document.definitions := by
  obtain ⟨d, hd, hsome⟩ := List.mem_filterMap.1 h
  cases d with
  | fragment => cases hsome
  | operation =>
      cases hsome
      exact hd

/-- That a definition is the fragment of a name, at another place of another text. -/
structure Again (fragments : Table FragmentDefinition) (source source' : String) (name : String)
    (definition : FragmentDefinition) : Prop where
  found : ∃ original, fragments.get? name = some original ∧ definition.bare = original.bare ∧
    definition.span.text source' = original.span.text source
  name : definition.name.text = name

/-- Each fragment in use is a piece of the document. -/
theorem exists_pieces (hclean : (parseDocument source).diagnostics = []) {used : List String}
    (hdefined : ∀ name ∈ used, ∃ definition,
      (parseDocument source).document.fragmentTable.get? name = some definition) :
    ∃ pieces : List Piece, List.Forall₂ (fun name p => ∃ definition,
      (parseDocument source).document.fragmentTable.get? name = some definition ∧
        p.definition = .fragment definition ∧ p.Cut source.toList) used pieces := by
  induction used with
  | nil => exact ⟨[], .nil⟩
  | cons name rest ih =>
      obtain ⟨definition, hget⟩ := hdefined name List.mem_cons_self
      obtain ⟨p, hp, hcut⟩ := exists_piece hclean (Document.fragment_mem hget).1
      obtain ⟨pieces, hpieces⟩ := ih fun other hother => hdefined other (List.mem_cons_of_mem _ hother)
      exact ⟨p :: pieces, .cons ⟨definition, hget, hp, hcut⟩ hpieces⟩

section

variable {fragments : Table FragmentDefinition} {used : List String} {pieces : List Piece}

/-- The text of an operation is that of its pieces. -/
theorem toList_operationSource {p : Piece} (hcut : p.Cut source.toList)
    (hpieces : List.Forall₂ (fun name p => ∃ definition, fragments.get? name = some definition ∧
      p.definition = .fragment definition ∧ p.Cut source.toList) used pieces) :
    (Bind.operationSource source fragments p.definition.span used).toList = Piece.joined (p :: pieces) := by
  have htexts : (used.filterMap fragments.get?).map (fun f => f.span.text source) =
      pieces.map fun p => String.ofList p.text := by
    induction hpieces with
    | nil => rfl
    | cons hfirst _ ih =>
        obtain ⟨definition, hget, hdefinition, hcut⟩ := hfirst
        have htext := hcut.text
        rw [hdefinition] at htext
        rw [List.filterMap_cons_some hget, List.map_cons, List.map_cons, ih]
        exact congrArg (· :: _) htext
  rw [Bind.operationSource, htexts, hcut.text, String.toList_intercalate, Piece.joined_eq]
  simp [Function.comp_def]

/-- What is read from the pieces of fragments. -/
theorem exists_fragments
    (hpieces : List.Forall₂ (fun name p => ∃ definition, fragments.get? name = some definition ∧
      p.definition = .fragment definition ∧ p.Cut source.toList) used pieces)
    (hnames : ∀ name ∈ used, ∀ definition, fragments.get? name = some definition →
      definition.name.text = name)
    {definitions : List Definition} (hput : List.Forall₂ (Piece.Put source'.toList) pieces definitions) :
    ∃ again, definitions = again.map Definition.fragment ∧
      List.Forall₂ (Again fragments source source') used again := by
  induction hpieces generalizing definitions with
  | nil =>
      cases hput
      exact ⟨[], rfl, .nil⟩
  | cons hfirst _ ih =>
      obtain ⟨definition, hget, hdefinition, hcut⟩ := hfirst
      obtain _ | ⟨hfirstPut, hrestPut⟩ := hput
      obtain ⟨place, hlike, htext⟩ := hcut.exists_place hfirstPut
      rw [hdefinition] at hlike
      obtain ⟨again, rfl, hagain⟩ :=
        ih (fun name hname => hnames name (List.mem_cons_of_mem _ hname)) hrestPut
      cases hlike with
      | @fragment _ definition' h =>
          have hbare := h.bare
          rw [FragmentDefinition.bare, FragmentDefinition.bare, FragmentDefinition.mk.injEq] at hbare
          have hname := (Name.bare_eq_iff.1 hbare.1).trans (hnames _ List.mem_cons_self definition hget)
          exact ⟨definition' :: again, rfl, .cons ⟨⟨definition, hget, h.bare, htext h.span⟩, hname⟩ hagain⟩

/-- The fragments found again are found under their names. -/
theorem get?_again {again : List FragmentDefinition}
    (hagain : List.Forall₂ (Again fragments source source') used again)
    (hnodup : used.Nodup) : List.Forall₂ (fun name definition =>
      (Table.ofList (again.map fun f => (f.name.text, f))).get? name = some definition) used again := by
  have hnames : (again.map fun f => (f.name.text, f)).map (·.1) = used := by
    rw [List.map_map]
    induction hagain with
    | nil => rfl
    | cons hfirst _ ih =>
        rw [List.map_cons, ih (List.nodup_cons.1 hnodup).2]
        exact congrArg (· :: _) hfirst.name
  refine List.forall₂_iff_get.2 ⟨hagain.length_eq, fun i h₁ h₂ => ?_⟩
  have hname := (hagain.get h₁ h₂).name
  rw [← hname]
  exact Table.get?_ofList_of_mem (hnames ▸ hnodup) (List.mem_map.2 ⟨_, List.get_mem again _, rfl⟩)

/-- The fragments in use are found again, and with them their texts. -/
theorem again_filterMap {again : List FragmentDefinition} {fragments' : Table FragmentDefinition}
    (hagain : List.Forall₂ (Again fragments source source') used again)
    (hget : List.Forall₂ (fun name definition => fragments'.get? name = some definition) used again) :
    (used.filterMap fragments'.get?).map (fun f => f.span.text source') =
      (used.filterMap fragments.get?).map fun f => f.span.text source := by
  induction hagain with
  | nil => rfl
  | cons hfirst _ ih =>
      obtain _ | ⟨hgetFirst, hgetRest⟩ := hget
      obtain ⟨original, horiginal, -, htext⟩ := hfirst.found
      rw [List.filterMap_cons_some hgetFirst, List.filterMap_cons_some horiginal, List.map_cons,
        List.map_cons, htext, ih hgetRest]

theorem again_serves {again : List FragmentDefinition}
    {fragments' : Table FragmentDefinition} (graph : TypeGraph)
    (operation operation' : String) (hagain : List.Forall₂ (Again fragments source source') used again)
    (hget : List.Forall₂ (fun name definition => fragments'.get? name = some definition) used again) :
    Bind.Context.Serves ⟨graph, fragments', operation'⟩ ⟨graph, fragments, operation⟩ used := by
  refine ⟨rfl, ?_⟩
  induction hagain with
  | nil => exact fun name hname => absurd hname List.not_mem_nil
  | @cons first definition _ _ hfirst _ ih =>
      obtain _ | ⟨hgetFirst, hgetRest⟩ := hget
      intro name hname original horiginal
      rcases List.mem_cons.1 hname with rfl | hname
      · obtain ⟨original', horiginal', hbare, -⟩ := hfirst.found
        obtain rfl := Option.some.inj (horiginal.symm.trans horiginal')
        exact ⟨definition, hgetFirst, hbare⟩
      · exact ih hgetRest name hname original horiginal

end

/-- The variables of an operation are the same at another place. -/
theorem variables_again {place : Nat → Nat → Prop} {list list' : List VariableDefinition}
    (h : List.Forall₂ (VariableDefinition.Like place) list list')
    (htext : ∀ {span span' : Span}, span.Like place span' → span'.text source' = span.text source) :
    (list'.map fun v => Variable.mk v.name.text v.type.text
      (v.default.map fun value => value.span.text source')) =
      list.map fun v => ⟨v.name.text, v.type.text, v.default.map fun value => value.span.text source⟩ := by
  induction h with
  | nil => rfl
  | @cons v v' _ _ hfirst _ ih =>
      have hbare := hfirst.bare
      rw [VariableDefinition.bare, VariableDefinition.bare, VariableDefinition.mk.injEq] at hbare
      have hdefault : ∀ {value value' : Option Literal}, Option.Rel (Literal.Like place) value value' →
          (value'.map fun value => value.span.text source') =
            value.map fun value => value.span.text source := by
        intro value value' hrel
        cases hrel with
        | some h => exact congrArg some (htext h.span)
        | none => rfl
      rw [List.map_cons, List.map_cons, ih, Name.bare_eq_iff.1 hbare.1,
        ← TypeExpr.text_bare v'.type, hbare.2.1, TypeExpr.text_bare, hdefault hfirst.default]

/-- An operation at another place is bound to the same operation, if the fragments
that it uses are there as well. -/
theorem Bind.Gives.serve {graph : TypeGraph} {fragments fragments' : Table FragmentDefinition}
    {definition definition' : OperationDefinition} {op : Operation} {used : List String}
    {place : Nat → Nat → Prop}
    (h : Gives graph source fragments definition op used) (hlike : definition.Like place definition')
    (htext : ∀ {span span' : Span}, span.Like place span' → span'.text source' = span.text source)
    (hserves : Context.Serves ⟨graph, fragments', op.name⟩ ⟨graph, fragments, op.name⟩ used)
    (htexts : (used.filterMap fragments'.get?).map (fun f => f.span.text source') =
      (used.filterMap fragments.get?).map fun f => f.span.text source) :
    Gives graph source' fragments' definition' op used := by
  have hbare := hlike.bare
  rw [OperationDefinition.bare, OperationDefinition.bare, OperationDefinition.mk.injEq] at hbare
  obtain ⟨hkind, hname, -, -, hset, -⟩ := hbare
  refine ⟨(texts_of_bare hname).trans h.name, h.kind.trans hkind.symm, hkind ▸ h.root, ?_, ?_, ?_⟩
  · exact h.binds.serve hserves (SelectionSet.bareList_selections hset)
  · exact h.variableDefinitions.trans (variables_again hlike.variableDefinitions htext).symm
  · rw [h.source, operationSource, operationSource, htexts, htext hlike.span]

/-- **The text of an operation stands for itself.** Binding it gives that operation and nothing else. -/
theorem bind_source {graph : TypeGraph} {source : String} {ops : List Operation}
    (hbind : bind graph source = .ok ops)
    {op : Operation} (hop : op ∈ ops) : bind graph op.source = .ok [op] := by
  obtain ⟨hclean, hops⟩ := bind_eq_ok_iff.1 hbind
  obtain ⟨definition, hmem, used, hgives⟩ := exists_of_mem_forall₂ hops hop
  have huses := hgives.binds.used.2 ⟨List.nodup_nil, fun name hname => absurd hname List.not_mem_nil⟩
  obtain ⟨p, hp, hcut⟩ := exists_piece hclean (Document.operation_mem hmem)
  obtain ⟨pieces, hpieces⟩ := exists_pieces hclean huses.defined
  have hspan : definition.span = p.definition.span := by
    rw [hp]
    rfl
  have hjoined : op.source.toList = Piece.joined (p :: pieces) := by
    rw [hgives.source, hspan]
    exact toList_operationSource hcut hpieces
  obtain ⟨hput, hclean'⟩ := parseDocument_joined hjoined
  generalize hdocument : (parseDocument op.source).document = document at hput
  obtain ⟨definitions, span⟩ := document
  obtain _ | ⟨hfirst, hrest⟩ := hput
  obtain ⟨place, hlike, htext⟩ := hcut.exists_place hfirst
  rw [hp] at hlike
  obtain ⟨again, rfl, hagain⟩ :=
    exists_fragments hpieces (fun name _ definition hget => (Document.fragment_mem hget).2) hrest
  cases hlike with
  | @operation _ definition' hlike =>
      rw [bind_eq_ok_iff, hdocument]
      have hoperations : Document.operations ⟨.operation definition' :: again.map .fragment,
          span⟩ = [definition'] := by
        simp [Document.operations, List.filterMap_map]
      have hfragments : Document.fragments ⟨.operation definition' :: again.map .fragment, span⟩ = again := by
        simp [Document.fragments, List.filterMap_map]
      rw [hoperations, Document.fragmentTable, hfragments]
      have hget := get?_again hagain huses.nodup
      have hserves := again_serves graph op.name op.name hagain hget
      exact ⟨hclean', .cons ⟨used, hgives.serve hlike htext hserves (again_filterMap hagain hget)⟩ .nil⟩

theorem bind_feed_source : bind feedGraph feedDocument = .ok [feedOperation] ∧
    feedOperation ∈ [feedOperation] ∧ bind feedGraph feedOperation.source = .ok [feedOperation] :=
  ⟨bind_feedDocument, List.mem_singleton_self _, bind_source bind_feedDocument (List.mem_singleton_self _)⟩

end GraphClient
