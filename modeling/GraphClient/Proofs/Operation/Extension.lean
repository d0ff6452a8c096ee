import GraphClient.Proofs.Operation.Spreading

/-! More fragments. Binding looks up the fragments that an operation leads to and no others. So fragments
that are added to a document under other names change nothing, whatever they spread (`bind_extended`):
operations are bound to the same, and what is wrong stays wrong in the same way, if at another place. -/

namespace GraphClient

namespace Bind

variable {c c' : Context} {stack inner : List String} {typeName condition : String} {s s' : Selection}
  {list list' : List Selection} {p opened q : Progress} {e : BindError} {F G : Frame} {R : String → Prop}

/-- That all fragments of a frame are in a set. -/
structure Frame.Inside (R : String → Prop) (F : Frame) : Prop where
  list : ∀ name ∈ Selection.spreadsIn F.list, R name
  used : ∀ name ∈ F.progress.used, R name

/-- That a set has all that its fragments spread. -/
def Context.Closed (c : Context) (R : String → Prop) : Prop :=
  ∀ {name other}, R name → Spreads c.fragments name other → R other

theorem Opens.inside (hopens : Opens c stack typeName p s inner condition list opened) (hclosed : c.Closed R)
    (hs : ∀ name ∈ s.spreads, R name) (hp : ∀ name ∈ p.used, R name) :
    (∀ name ∈ Selection.spreadsIn list, R name) ∧ ∀ name ∈ opened.used, R name := by
  cases hopens with
  | inline =>
      rw [Selection.spreads, SelectionSet.spreads] at hs
      exact ⟨hs, hp⟩
  | @spread name directives span definition hdefinition hnew =>
      have hname : R name.text := hs _ (List.mem_singleton_self _)
      refine ⟨fun other hother => ?_, fun other hother => ?_⟩
      · rw [← SelectionSet.spreads_eq] at hother
        exact hclosed hname ⟨definition, hdefinition, hother⟩
      · rw [Progress.use] at hother
        split at hother
        · exact hp other hother
        · rcases List.mem_append.1 hother with hother | hother
          · exact hp other hother
          · rwa [List.mem_singleton.1 hother]

theorem Into.inside (hinto : Into c stack typeName p s F) (hclosed : c.Closed R)
    (hs : ∀ name ∈ s.spreads, R name) (hp : ∀ name ∈ p.used, R name) : F.Inside R := by
  cases hinto with
  | nested =>
      rw [Selection.spreads, SelectionSet.spreads?, SelectionSet.spreads] at hs
      exact ⟨hs, hp⟩
  | same hopens | variant hopens =>
      obtain ⟨hlist, hopened⟩ := hopens.inside hclosed hs hp
      exact ⟨hlist, hopened⟩

theorem forall_spreadsIn_cons {rest : List Selection} :
    (∀ name ∈ Selection.spreadsIn (s :: rest), R name) ↔
      (∀ name ∈ s.spreads, R name) ∧ ∀ name ∈ Selection.spreadsIn rest, R name := by
  rw [Selection.spreadsIn, List.forall_mem_append]

theorem Binds.inside (h : Binds c stack typeName list p q) (hclosed : c.Closed R)
    (hlist : ∀ name ∈ Selection.spreadsIn list, R name) (hp : ∀ name ∈ p.used, R name) :
    ∀ name ∈ q.used, R name := by
  induction h with
  | nil => exact hp
  | typename _ _ ih | leaf _ _ _ _ ih => exact ih (forall_spreadsIn_cons.1 hlist).2 hp
  | nested _ _ _ _ _ ihnested ih =>
      obtain ⟨hs, hrest⟩ := forall_spreadsIn_cons.1 hlist
      rw [Selection.spreads, SelectionSet.spreads?, SelectionSet.spreads] at hs
      exact ih hrest (ihnested hs hp)
  | same hopens _ _ ihlist ih | variant hopens _ _ _ _ ihlist ih =>
      obtain ⟨hs, hrest⟩ := forall_spreadsIn_cons.1 hlist
      obtain ⟨hinner, hopened⟩ := hopens.inside hclosed hs hp
      exact ih hrest (ihlist hinner hopened)

/-- That one context has the fragments of a set that another one has, at other places. -/
structure Context.Agrees (c' c : Context) (R : String → Prop) : Prop where
  graph : c'.graph = c.graph
  operation : c'.operation = c.operation
  fragments : ∀ {name}, R name →
    (c'.fragments.get? name).map FragmentDefinition.bare = (c.fragments.get? name).map FragmentDefinition.bare

theorem Context.Agrees.serves {used : List String} (hagrees : c'.Agrees c R) (hused : ∀ name ∈ used, R name) :
    c'.Serves c used := by
  refine ⟨hagrees.graph, fun name hname definition hdefinition => ?_⟩
  have hsame := hagrees.fragments (hused name hname)
  rw [hdefinition, Option.map_some, Option.map_eq_some_iff] at hsame
  exact hsame

theorem Into.serve (hinto : Into c stack typeName p s F) (hagrees : c'.Agrees c R) (hclosed : c.Closed R)
    (hs : ∀ name ∈ s.spreads, R name) (hp : ∀ name ∈ p.used, R name) (hbare : s'.bare = s.bare) :
    ∃ inside, Selection.bareList inside = Selection.bareList F.list ∧
      Into c' stack typeName p s' { F with list := inside } := by
  cases hinto with
  | nested hname hdeclares hcomposite =>
      obtain ⟨name', arguments', directives', set', span', rfl, htext, hset⟩ := exists_field_of_bare hbare
      obtain ⟨inside, insideSpan, rfl, hinside⟩ := SelectionSet.exists_mk_of_bare hset
      rw [← htext] at hname hdeclares
      exact ⟨inside, hinside, .nested hname (hagrees.graph.symm ▸ hdeclares) hcomposite⟩
  | same hopens =>
      obtain ⟨inside, hopens', hinside⟩ := hopens.serve (hagrees.serves (hopens.inside hclosed hs hp).2) hbare
      exact ⟨inside, hinside, .same hopens'⟩
  | variant hopens hother hadmits =>
      obtain ⟨inside, hopens', hinside⟩ := hopens.serve (hagrees.serves (hopens.inside hclosed hs hp).2) hbare
      exact ⟨inside, hinside, .variant hopens' hother (hagrees.graph.symm ▸ hadmits)⟩

theorem Context.Agrees.conditionFault? (hagrees : c'.Agrees c R) :
    c'.conditionFault? typeName condition = c.conditionFault? typeName condition := by
  unfold Context.conditionFault?
  rw [hagrees.graph, hagrees.operation]

theorem Context.Agrees.fieldFault? {wireName : String} {nested : Bool} (hagrees : c'.Agrees c R) :
    c'.fieldFault? typeName wireName nested = c.fieldFault? typeName wireName nested := by
  unfold Context.fieldFault?
  rw [hagrees.graph, hagrees.operation]

theorem SelectionSet.isSome_bare? (set : Option SelectionSet) :
    (SelectionSet.bare? set).isSome = set.isSome := by
  cases set <;> rfl

/-- A selection is at fault in the same way. -/
theorem Context.Agrees.fault? (hagrees : c'.Agrees c R) (hs : ∀ name ∈ s.spreads, R name)
    (hbare : s'.bare = s.bare) :
    c'.fault? stack typeName s' = c.fault? stack typeName s := by
  cases s with
  | field key name arguments directives set span =>
      cases s' with
      | inline | spread => cases hbare
      | field key' name' arguments' directives' set' span' =>
          rw [Selection.bare, Selection.bare, Selection.field.injEq] at hbare
          obtain ⟨hkey, hname, -, -, hset, -⟩ := hbare
          cases key with
          | none =>
              rw [Option.map_none, Option.map_eq_none_iff] at hkey
              subst hkey
              rw [Context.fault?, Context.fault?, hagrees.fieldFault?, Name.bare_eq_iff.1 hname,
                ← SelectionSet.isSome_bare?, hset, SelectionSet.isSome_bare?]
          | some key =>
              rw [Option.map_some, Option.map_eq_some_iff] at hkey
              obtain ⟨key', rfl, hkey⟩ := hkey
              rw [Context.fault?, Context.fault?, Name.bare_eq_iff.1 hkey, Name.bare_eq_iff.1 hname]
  | inline condition directives set span =>
      cases s' with
      | field | spread => cases hbare
      | inline condition' directives' set' span' =>
          rw [Selection.bare, Selection.bare, Selection.inline.injEq] at hbare
          rw [Context.fault?, Context.fault?, hagrees.conditionFault?, texts_of_bare hbare.1]
  | spread name directives span =>
      cases s' with
      | field | inline => cases hbare
      | spread name' directives' span' =>
          rw [Selection.bare, Selection.bare, Selection.spread.injEq] at hbare
          have hsame := hagrees.fragments (hs _ (List.mem_singleton_self _))
          rw [Context.fault?, Context.fault?, Name.bare_eq_iff.1 hbare.1]
          cases hdefinition : c.fragments.get? name.text with
          | none =>
              rw [hdefinition, Option.map_none, Option.map_eq_none_iff] at hsame
              rw [hsame]
          | some definition =>
              rw [hdefinition, Option.map_some, Option.map_eq_some_iff] at hsame
              obtain ⟨definition', hdefinition', hbare'⟩ := hsame
              rw [FragmentDefinition.bare, FragmentDefinition.bare, FragmentDefinition.mk.injEq] at hbare'
              rw [hdefinition']
              dsimp only
              rw [hagrees.conditionFault?, Name.bare_eq_iff.1 hbare'.2.1]

/-- The same selection of a list at another place. -/
theorem exists_append_of_bare {before after : List Selection}
    (hbare : Selection.bareList list' = Selection.bareList (before ++ s :: after)) :
    ∃ before' s' after', list' = before' ++ s' :: after' ∧ Selection.bareList before' =
      Selection.bareList before ∧ s'.bare = s.bare := by
  simp only [Selection.bareList_eq_map, List.map_append, List.map_cons] at hbare ⊢
  obtain ⟨before', rest', rfl, hbefore, hrest⟩ := List.map_eq_append_iff.1 hbare
  obtain ⟨s', after', rfl, hs, -⟩ := List.map_eq_cons_iff.1 hrest
  exact ⟨before', s', after', rfl, hbefore, hs⟩

/-- A list is bound up to the same selection. -/
theorem Binds.exists_serve {before after : List Selection} (hbefore : Binds c stack typeName before p q)
    (hagrees : c'.Agrees c R) (hclosed : c.Closed R)
    (hinside : Frame.Inside R ⟨stack, typeName, before ++ s :: after, p⟩)
    (hbare : Selection.bareList list' = Selection.bareList (before ++ s :: after)) :
    (∀ name ∈ s.spreads, R name) ∧ (∀ name ∈ q.used, R name) ∧ ∃ before' s' after', list' =
      before' ++ s' :: after' ∧ Binds c' stack typeName before' p q ∧ s'.bare = s.bare := by
  obtain ⟨before', s', after', rfl, hbefore', hs'⟩ := exists_append_of_bare hbare
  have hlist := hinside.list
  simp only [Selection.spreadsIn_eq_flatMap, List.flatMap_append, List.flatMap_cons,
    List.forall_mem_append] at hlist
  rw [← Selection.spreadsIn_eq_flatMap] at hlist
  have hq := hbefore.inside hclosed hlist.1 hinside.used
  exact ⟨hlist.2.1, hq, before', s', after', rfl, hbefore.serve (hagrees.serves hq) hbefore', hs'⟩

theorem Enters.serve (henters : Enters c F G) (hagrees : c'.Agrees c R)
    (hclosed : c.Closed R) (hF : F.Inside R)
    (hbare : Selection.bareList list' = Selection.bareList F.list) :
    G.Inside R ∧ ∃ inside, Selection.bareList inside = Selection.bareList G.list ∧
      Enters c' { F with list := list' } { G with list := inside } := by
  cases henters with
  | mk hbefore hinto =>
      obtain ⟨hs, hq, before', s', after', rfl, hbefore', hs'⟩ :=
        hbefore.exists_serve hagrees hclosed hF hbare
      obtain ⟨inside, hinside, hinto'⟩ := hinto.serve hagrees hclosed hs hq hs'
      exact ⟨hinto.inside hclosed hs hq, inside, hinside, .mk hbefore' hinto'⟩

theorem Halts.serve (hhalts : Halts c F e) (hagrees : c'.Agrees c R) (hclosed : c.Closed R) (hF : F.Inside R)
    (hbare : Selection.bareList list' = Selection.bareList F.list) :
    ∃ e', Halts c' { F with list := list' } e' ∧ e'.fault = e.fault := by
  cases hhalts with
  | mk hbefore hfault =>
      obtain ⟨hs, -, before', s', after', rfl, hbefore', hs'⟩ := hbefore.exists_serve hagrees hclosed hF hbare
      exact ⟨_, .mk hbefore' ((hagrees.fault? hs hs').trans hfault), rfl⟩

/-- **A list comes to the same in both**, down to what is wrong with it. -/
theorem Frame.run_serve (hagrees : c'.Agrees c R) (hclosed : c.Closed R) (hF : F.Inside R)
    (hbare : Selection.bareList list' = Selection.bareList F.list) :
    (Frame.run c' { F with list := list' }).mapError (·.fault) = (F.run c).mapError (·.fault) := by
  cases hrun : F.run c with
  | ok q =>
      have hbinds : Binds c F.stack F.typeName F.list F.progress q := binds_of_selections hrun
      have hserved := hbinds.serve (hagrees.serves (hbinds.inside hclosed hF.list hF.used)) hbare
      exact Except.mapError_eq_ok.2 (selections_of_binds hserved)
  | error e =>
      obtain ⟨G, hreaches, hhalts⟩ := Frame.run_eq_error_iff_halts.1 hrun
      have hwalk : G.Inside R ∧ ∃ inside, Selection.bareList inside = Selection.bareList G.list ∧
          Relation.ReflTransGen (Enters c') { F with list := list' } { G with list := inside } := by
        clear hhalts
        induction hreaches with
        | refl => exact ⟨hF, list', hbare, .refl⟩
        | tail _ henters ih =>
            obtain ⟨hG, inside, hinside, hreaches'⟩ := ih
            obtain ⟨hH, deeper, hdeeper, henters'⟩ := henters.serve hagrees hclosed hG hinside
            exact ⟨hH, deeper, hdeeper, hreaches'.tail henters'⟩
      obtain ⟨hG, inside, hinside, hreaches'⟩ := hwalk
      obtain ⟨e', hhalts', hfault⟩ := hhalts.serve hagrees hclosed hG hinside
      rw [Frame.run_eq_error_iff_halts.2 ⟨_, hreaches', hhalts'⟩]
      exact congrArg Except.error hfault

/-- That binding an operation is to bind a list. -/
inductive Starts (graph : TypeGraph) (fragments : Table FragmentDefinition)
    (definition : OperationDefinition) :
    Context → Frame → Prop
  | mk {name : Name} {root : String} (hname : definition.name = some name)
      (hroot : graph.rootType? definition.kind = some root) :
      Starts graph fragments definition ⟨graph, fragments, name.text⟩
        ⟨[], root, definition.set.selections, ⟨.empty root, []⟩⟩

theorem operation_of_starts {graph : TypeGraph} {source : String} {fragments : Table FragmentDefinition}
    {definition : OperationDefinition} (hstarts : Starts graph fragments definition c F)
    (herror : F.run c = .error e) : operation graph source fragments definition = .error e := by
  cases hstarts with
  | mk hname hroot =>
      rw [operation, hname]
      dsimp only
      rw [hroot]
      exact Except.bind_eq_error.2 (.inl herror)

theorem operation_eq_error_iff {graph : TypeGraph} {source : String} {fragments : Table FragmentDefinition}
    {definition : OperationDefinition} : operation graph source fragments definition = .error e ↔
      (definition.name = none ∧ e = ⟨.anonymous, definition.span⟩) ∨
      (∃ name, definition.name = some name ∧ graph.rootType? definition.kind = none ∧
        e = ⟨.missingRoot name.text definition.kind, definition.span⟩) ∨
      ∃ c F, Starts graph fragments definition c F ∧ F.run c = .error e := by
  constructor
  · intro herror
    cases hname : definition.name with
    | none =>
        rw [operation, hname] at herror
        cases herror
        exact .inl ⟨rfl, rfl⟩
    | some name =>
        cases hroot : graph.rootType? definition.kind with
        | none =>
            rw [operation, hname] at herror
            dsimp only at herror
            rw [hroot] at herror
            cases herror
            exact .inr (.inl ⟨name, rfl, rfl, rfl⟩)
        | some root =>
            rw [operation, hname] at herror
            dsimp only at herror
            rw [hroot] at herror
            rcases Except.bind_eq_error.1 herror with herror | ⟨bound, -, herror⟩
            · exact .inr (.inr ⟨_, _, .mk hname hroot, herror⟩)
            · cases herror
  · rintro (⟨hname, rfl⟩ | ⟨name, hname, hroot, rfl⟩ | ⟨c, F, hstarts, herror⟩)
    · rw [operation, hname]
    · rw [operation, hname]
      dsimp only
      rw [hroot]
    · exact operation_of_starts hstarts herror

end Bind

/-- What a fragment is, wherever it stands. -/
def FragmentDefinition.content (source : String) (definition : FragmentDefinition) :
    FragmentDefinition × String :=
  (definition.bare, definition.span.text source)

/-- That a definition stands in another text as well. -/
def Definition.Copied (source source' : String) (definition definition' : Definition) : Prop :=
  ∃ place, definition.Like place definition' ∧
    ∀ {span span' : Span}, span.Like place span' → span'.text source' = span.text source

def Definition.fragmentName? : Definition → Option String
  | .operation _ => none
  | .fragment definition => some definition.name.text

/-- That a definition is not one of the fragments of some names. -/
def Definition.other (names : List String) (definition : Definition) : Bool :=
  definition.fragmentName?.all fun name => decide (name ∉ names)

/-- That a text has the definitions of another one in their order, and besides them
only fragments of some names. -/
structure Extends (names : List String) (source source' : String) : Prop where
  clean : (parseDocument source').diagnostics = []
  definitions : List.Forall₂ (Definition.Copied source source') (parseDocument source).document.definitions
    ((parseDocument source').document.definitions.filter (Definition.other names))

section

variable {names : List String} {source source' : String} {graph : TypeGraph}
  {fragments fragments' : Table FragmentDefinition} {R : String → Prop}

theorem SelectionSet.spreads_of_bare {set set' : SelectionSet} (hbare : set'.bare = set.bare) :
    set'.spreads = set.spreads := by
  rw [SelectionSet.spreads_eq, SelectionSet.spreads_eq, ← Selection.spreadsIn_bareList,
    Bind.SelectionSet.bareList_selections hbare, Selection.spreadsIn_bareList]

theorem FragmentDefinition.spreads_of_bare {definition definition' : FragmentDefinition}
    (hbare : definition'.bare = definition.bare) : definition'.set.spreads = definition.set.spreads := by
  rw [bare, bare, FragmentDefinition.mk.injEq] at hbare
  exact SelectionSet.spreads_of_bare hbare.2.2.2.1

theorem Definition.Copied.spreads {definition definition' : OperationDefinition}
    (h : Definition.Copied source source' (.operation definition) (.operation definition')) :
    definition'.set.spreads = definition.set.spreads := by
  obtain ⟨place, ⟨hlike⟩, -⟩ := h
  have hbare := hlike.bare
  rw [OperationDefinition.bare, OperationDefinition.bare, OperationDefinition.mk.injEq] at hbare
  exact SelectionSet.spreads_of_bare hbare.2.2.2.2.1

theorem Document.operations_filter_other (document : Document) (names : List String) :
    Document.operations
      { document with definitions := document.definitions.filter (Definition.other names) } =
      document.operations := by
  unfold Document.operations
  rw [List.filterMap_filter]
  refine List.filterMap_congr fun d _ => ?_
  cases d with
  | operation definition => exact if_pos rfl
  | fragment definition => exact ite_self none

/-- The operations are there again. -/
theorem Extends.operations (h : Extends names source source') :
    List.Forall₂
      (fun definition definition' => Definition.Copied source source' (.operation definition)
        (.operation definition'))
      (parseDocument source).document.operations (parseDocument source').document.operations := by
  rw [← Document.operations_filter_other (parseDocument source').document names]
  refine List.rel_filterMap ?_ h.definitions
  rintro d d' ⟨place, hlike, htext⟩
  cases hlike with
  | operation h => exact .some ⟨place, .operation h, htext⟩
  | fragment h => exact .none

theorem Document.fragments_filter_other (document : Document) (names : List String) :
    Document.fragments { document with definitions := document.definitions.filter (Definition.other names) } =
      document.fragments.filter fun f => decide (f.name.text ∉ names) := by
  unfold Document.fragments
  rw [List.filterMap_filter, List.filter_filterMap]
  refine List.filterMap_congr fun d _ => ?_
  cases d with
  | operation definition => exact ite_self none
  | fragment definition => rfl

/-- So are the fragments that have other names. -/
theorem Extends.content (h : Extends names source source') {name : String} (hname : name ∉ names) :
    ((parseDocument source').document.fragmentTable.get? name).map (FragmentDefinition.content source') =
      ((parseDocument source).document.fragmentTable.get? name).map (FragmentDefinition.content source) := by
  have hentries : List.Forall₂ (fun e e' : String × FragmentDefinition =>
      e'.1 = e.1 ∧ e'.2.content source' = e.2.content source)
      ((parseDocument source).document.fragments.map fun f => (f.name.text, f))
      (((parseDocument source').document.fragments.map fun f => (f.name.text, f)).filter fun e =>
        decide (e.1 ∉ names)) := by
    rw [List.filter_map]
    change List.Forall₂ _ _ (((parseDocument source').document.fragments.filter fun f =>
      decide (f.name.text ∉ names)).map _)
    rw [← Document.fragments_filter_other, List.forall₂_map_left_iff, List.forall₂_map_right_iff]
    refine List.rel_filterMap ?_ h.definitions
    rintro d d' ⟨place, hlike, htext⟩
    cases hlike with
    | operation h => exact .none
    | fragment h =>
        have hbare := h.bare
        rw [FragmentDefinition.bare, FragmentDefinition.bare, FragmentDefinition.mk.injEq] at hbare
        exact .some ⟨Name.bare_eq_iff.1 hbare.1, Prod.ext h.bare (htext h.span)⟩
  have hrel : Option.Rel (fun f f' : FragmentDefinition => f'.content source' = f.content source) _ _ :=
    Table.get?_ofList_rel hentries name
  rw [@Table.get?_ofList_filter _ _ (fun other => decide (other ∉ names)) _ (decide_eq_true hname)] at hrel
  change Option.Rel _ ((parseDocument source).document.fragmentTable.get? name)
    ((parseDocument source').document.fragmentTable.get? name) at hrel
  generalize (parseDocument source).document.fragmentTable.get? name = found,
    (parseDocument source').document.fragmentTable.get? name = found' at hrel ⊢
  cases hrel with
  | some hsame => exact congrArg some hsame
  | none => rfl

/-- An operation comes to the same where the fragments are that it leads to. -/
theorem Bind.operation_serve {definition definition' : OperationDefinition}
    (hcopied : Definition.Copied source source' (.operation definition) (.operation definition'))
    (hclosed : ∀ {name other}, R name → Spreads fragments name other → R other)
    (hdefinition : ∀ name ∈ definition.set.spreads, R name)
    (hsame : ∀ {name}, R name → (fragments'.get? name).map (FragmentDefinition.content source') =
      (fragments.get? name).map (FragmentDefinition.content source)) :
    (operation graph source' fragments' definition').mapError (·.fault) =
      (operation graph source fragments definition).mapError (·.fault) := by
  obtain ⟨place, hlike, htext⟩ := hcopied
  obtain ⟨hlike⟩ := hlike
  have hbare := hlike.bare
  rw [OperationDefinition.bare, OperationDefinition.bare, OperationDefinition.mk.injEq] at hbare
  obtain ⟨hkind, hname, -, -, hset, -⟩ := hbare
  have hagrees : ∀ name, Context.Agrees ⟨graph, fragments', name⟩ ⟨graph, fragments, name⟩ R := by
    refine fun name => ⟨rfl, rfl, fun hR => ?_⟩
    have hfst := congrArg (Option.map Prod.fst) (hsame hR)
    rwa [Option.map_map, Option.map_map] at hfst
  have hstart : ∀ root, Frame.Inside R ⟨[], root, definition.set.selections, ⟨.empty root, []⟩⟩ :=
    fun root => ⟨by rwa [← SelectionSet.spreads_eq], fun name hname => absurd hname List.not_mem_nil⟩
  cases hrun : operation graph source fragments definition with
  | ok op =>
      obtain ⟨used, hgives⟩ := operation_eq_ok_iff.1 hrun
      have hstartOp := hstart op.rootType
      have hused : ∀ name ∈ used, R name := hgives.binds.inside hclosed hstartOp.list hstartOp.used
      have htexts : (used.filterMap fragments'.get?).map (fun f => f.span.text source') =
          (used.filterMap fragments.get?).map fun f => f.span.text source := by
        rw [List.map_filterMap, List.map_filterMap]
        refine List.filterMap_congr fun name hname => ?_
        have hsnd := congrArg (Option.map Prod.snd) (hsame (hused name hname))
        rwa [Option.map_map, Option.map_map] at hsnd
      have hgives' := hgives.serve hlike htext ((hagrees op.name).serves hused) htexts
      exact Except.mapError_eq_ok.2 (operation_eq_ok_iff.2 ⟨used, hgives'⟩)
  | error e =>
      refine Except.mapError_eq_error.2 ?_
      have htexts : definition'.name.map (·.text) = definition.name.map (·.text) := texts_of_bare hname
      rcases operation_eq_error_iff.1 hrun with ⟨hnone, rfl⟩ | ⟨name, hsome, hroot, rfl⟩ |
        ⟨c, F, hstarts, herror⟩
      · rw [hnone, Option.map_none, Option.map_eq_none_iff] at htexts
        exact ⟨_, operation_eq_error_iff.2 (.inl ⟨htexts, rfl⟩), rfl⟩
      · rw [hsome, Option.map_some, Option.map_eq_some_iff] at htexts
        obtain ⟨name', hsome', htext'⟩ := htexts
        refine ⟨_, operation_eq_error_iff.2 (.inr (.inl ⟨name', hsome', hkind ▸ hroot, rfl⟩)), ?_⟩
        rw [htext', hkind]
      · cases hstarts with
        | @mk name root hsome hroot =>
            rw [hsome, Option.map_some, Option.map_eq_some_iff] at htexts
            obtain ⟨name', hsome', htext'⟩ := htexts
            have hserve := Frame.run_serve (hagrees name.text) hclosed (hstart root)
              (SelectionSet.bareList_selections hset)
            rw [herror] at hserve
            obtain ⟨e', herror', hfault⟩ := Except.mapError_eq_error.1 hserve
            refine ⟨e', operation_of_starts (.mk hsome' (hkind ▸ hroot)) ?_, hfault⟩
            rw [htext']
            exact herror'

theorem bind_of_clean (hclean : (parseDocument source).diagnostics = []) :
    bind graph source = (parseDocument source).document.operations.mapM
      (Bind.operation graph source (parseDocument source).document.fragmentTable) := by
  unfold bind
  dsimp only
  rw [hclean]
  rfl

/-- **Fragments that no operation leads to change nothing.** -/
theorem bind_extended (hclean : (parseDocument source).diagnostics = [])
    (hextends : Extends names source source')
    (hfree : ∀ name ∈ names, ¬(parseDocument source').document.Reaches name) :
    (bind graph source').mapError (·.fault) = (bind graph source).mapError (·.fault) := by
  have hcontent : ∀ {name}, (parseDocument source').document.Reaches name →
      ((parseDocument source').document.fragmentTable.get? name).map (FragmentDefinition.content source') =
        ((parseDocument source).document.fragmentTable.get? name).map (FragmentDefinition.content source) :=
    fun hreaches => hextends.content fun hmem => hfree _ hmem hreaches
  have hclosed : ∀ {name other}, (parseDocument source').document.Reaches name →
      Spreads (parseDocument source).document.fragmentTable name other →
        (parseDocument source').document.Reaches other := by
    rintro name other hreaches ⟨definition, hdefinition, hother⟩
    have hsame := congrArg (Option.map Prod.fst) (hcontent hreaches)
    rw [hdefinition, Option.map_map, Option.map_some, Option.map_some, Option.map_eq_some_iff] at hsame
    obtain ⟨definition', hdefinition', hbare⟩ := hsame
    obtain ⟨operation, hoperation, first, hfirst, hwalk⟩ := hreaches
    refine ⟨operation, hoperation, first, hfirst, hwalk.tail ⟨definition', hdefinition', ?_⟩⟩
    rwa [FragmentDefinition.spreads_of_bare hbare]
  have hspreads : ∀ definition ∈ (parseDocument source).document.operations, ∀ name ∈ definition.set.spreads,
      (parseDocument source').document.Reaches name := by
    intro definition hmem name hname
    obtain ⟨definition', hmem', hcopied⟩ := exists_right_of_mem_forall₂ hextends.operations hmem
    exact ⟨definition', hmem', name, by rwa [hcopied.spreads], .refl⟩
  have hall := (List.forall₂_and_left _ _).2 ⟨hspreads, hextends.operations⟩
  rw [bind_of_clean hclean, bind_of_clean hextends.clean]
  refine mapError_mapM_of_forall₂ (hall.imp ?_)
  rintro definition definition' ⟨hdefinition, hcopied⟩
  exact Bind.operation_serve hcopied hclosed hdefinition hcontent

end

section

variable {names : List String} {source source' extra : String}

theorem Definition.Like.other {place : Nat → Nat → Prop} {definition definition' : Definition}
    (hlike : definition.Like place definition') : definition'.other names = definition.other names := by
  cases hlike with
  | operation h => rfl
  | @fragment f f' h =>
      have hbare := h.bare
      rw [FragmentDefinition.bare, FragmentDefinition.bare, FragmentDefinition.mk.injEq] at hbare
      rw [Definition.other, Definition.other, fragmentName?, fragmentName?, Name.bare_eq_iff.1 hbare.1]

/-- The pieces of a document. -/
theorem exists_cuts (hclean : (parseDocument source).diagnostics = []) : ∃ pieces : List Piece,
    List.Forall₂ (fun definition p => p.definition = definition ∧ p.Cut source.toList)
      (parseDocument source).document.definitions pieces := by
  have hall : ∀ definition ∈ (parseDocument source).document.definitions,
      ∃ p : Piece, p.definition = definition ∧ p.Cut source.toList := fun _ => exists_piece hclean
  generalize (parseDocument source).document.definitions = definitions at hall ⊢
  induction definitions with
  | nil => exact ⟨[], .nil⟩
  | cons definition rest ih =>
      obtain ⟨p, hp⟩ := hall definition List.mem_cons_self
      obtain ⟨pieces, hpieces⟩ := ih fun d hd => hall d (List.mem_cons_of_mem _ hd)
      exact ⟨p :: pieces, .cons hp hpieces⟩

theorem texts_of_cuts {definitions : List Definition} {pieces : List Piece}
    (hcuts : List.Forall₂ (fun definition p => p.definition = definition ∧
      p.Cut source.toList) definitions pieces) :
    definitions.map (fun d => (d.span.text source).toList) = pieces.map Piece.text := by
  induction hcuts with
  | nil => rfl
  | cons hfirst _ ih =>
      obtain ⟨rfl, hcut⟩ := hfirst
      rw [List.map_cons, List.map_cons, ih, hcut.text, String.toList_ofList]

/-- Put together with others that are left out, the pieces of a document are copies of its definitions. -/
theorem copied_of_put {definitions definitions' : List Definition} {pieces more : List Piece}
    (hcuts : List.Forall₂ (fun definition p => p.definition = definition ∧
      p.Cut source.toList) definitions pieces)
    (hput : List.Forall₂ (Piece.Put source'.toList) (pieces ++ more) definitions')
    (hother : ∀ d ∈ definitions, d.other names = true)
    (hmore : ∀ p ∈ more, p.definition.other names = false) :
    List.Forall₂ (Definition.Copied source source') definitions
      (definitions'.filter (Definition.other names)) := by
  induction hcuts generalizing definitions' with
  | nil =>
      have hnone : definitions'.filter (Definition.other names) = [] := by
        refine List.filter_eq_nil_iff.2 fun d hd => ?_
        obtain ⟨p, hp, _, _, -, hlike⟩ := exists_of_mem_forall₂ hput hd
        rw [hlike.other, hmore p hp]
        exact Bool.false_ne_true
      rw [hnone]
      exact .nil
  | @cons d p _ _ hfirst _ ih =>
      obtain ⟨rfl, hcut⟩ := hfirst
      obtain _ | @⟨_, d', _, rest', hfirstPut, hrestPut⟩ := hput
      obtain ⟨place, hlike, htext⟩ := hcut.exists_place hfirstPut
      rw [List.filter_cons_of_pos (hlike.other.trans (hother _ List.mem_cons_self))]
      exact .cons ⟨place, hlike, htext⟩ (ih hrestPut fun d hd => hother d (List.mem_cons_of_mem _ hd))

/-- **Fragments can be added** to a document: their texts are put behind those of its own definitions. -/
theorem extends_joined (hclean : (parseDocument source).diagnostics = [])
    (hextra : (parseDocument extra).diagnostics = [])
    (hother : ∀ d ∈ (parseDocument source).document.definitions, d.other names = true)
    (hnames : ∀ d ∈ (parseDocument extra).document.definitions, d.other names = false)
    (htext : source' = "\n\n".intercalate
      ((parseDocument source).document.definitions.map (fun d => d.span.text source) ++
        (parseDocument extra).document.definitions.map fun d => d.span.text extra)) :
    Extends names source source' := by
  obtain ⟨pieces, hcuts⟩ := exists_cuts hclean
  obtain ⟨more, hmore⟩ := exists_cuts hextra
  have hjoined : source'.toList = Piece.joined (pieces ++ more) := by
    rw [Piece.joined_eq, List.map_append, ← texts_of_cuts hcuts, ← texts_of_cuts hmore, htext,
      String.toList_intercalate]
    simp [Function.comp_def]
  obtain ⟨hput, hclean'⟩ := parseDocument_joined hjoined
  refine ⟨hclean', copied_of_put hcuts hput hother fun p hp => ?_⟩
  obtain ⟨d, hd, rfl, -⟩ := exists_of_mem_forall₂ hmore hp
  exact hnames _ hd

end

end GraphClient
