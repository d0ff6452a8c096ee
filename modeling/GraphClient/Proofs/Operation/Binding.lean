import GraphClient.Proofs.Operation.Faults
import GraphClient.Proofs.Schema.Build

/-! The rules of binding. A derivation of `Binds` tells how a list of selections adds to what has been
selected: on which type each field is looked up, what each fragment opens, and whether it adds to the
selection at hand or to the one from an object type. Binding succeeds exactly where there is a derivation
(`selections_eq_ok_iff`), so whatever is true of all derivations is true of all bound operations. -/

namespace GraphClient

namespace Bind

/-- What a fragment opens: the fragments being spread, its type condition, its selections, and the progress
with the spread noted. -/
inductive Opens (c : Context) (stack : List String) (typeName : String) (p : Progress) :
    Selection → List String → String → List Selection → Progress → Prop
  | inline {condition : Option Name} {directives : List Directive} {list : List Selection}
      {setSpan span : Span} :
      Opens c stack typeName p (.inline condition directives (.mk list setSpan) span) stack
        ((condition.map (·.text)).getD typeName) list p
  | spread {name : Name} {directives : List Directive} {span : Span} {definition : FragmentDefinition}
      (hdefinition : c.fragments.get? name.text = some definition) (hnew : name.text ∉ stack) :
      Opens c stack typeName p (.spread name directives span) (name.text :: stack) definition.condition.text
        definition.set.selections (p.use name.text)

/-- That selections from a type add to a selection. -/
inductive Binds (c : Context) : List String → String → List Selection → Progress → Progress → Prop
  | nil {stack : List String} {typeName : String} {p : Progress} : Binds c stack typeName [] p p
  | typename {stack : List String} {typeName : String} {name : Name} {arguments : List Argument}
      {directives : List Directive} {span : Span} {rest : List Selection} {p q : Progress}
      (hname : name.text = "__typename")
      (hrest : Binds c stack typeName rest ⟨p.selected.selectTypename, p.used⟩ q) :
      Binds c stack typeName (.field none name arguments directives none span :: rest) p q
  | leaf {stack : List String} {typeName : String} {name : Name} {arguments : List Argument}
      {directives : List Directive} {span : Span} {rest : List Selection} {p q : Progress}
      {definition : FieldDefinition} {target : TypeDefinition} (hname : name.text ≠ "__typename")
      (hdeclares : c.graph.Declares typeName name.text definition target)
      (hleaf : target.kind.isComposite = false)
      (hrest : Binds c stack typeName rest
        ⟨p.selected.withField name.text (.mk definition.name name.text none), p.used⟩ q) :
      Binds c stack typeName (.field none name arguments directives none span :: rest) p q
  | nested {stack : List String} {typeName : String} {name : Name} {arguments : List Argument}
      {directives : List Directive} {list : List Selection} {setSpan span : Span} {rest : List Selection}
      {p nested q : Progress} {definition : FieldDefinition} {target : TypeDefinition}
      (hname : name.text ≠ "__typename") (hdeclares : c.graph.Declares typeName name.text definition target)
      (hcomposite : target.kind.isComposite = true)
      (hnested : Binds c stack target.name list ⟨.empty target.name, p.used⟩ nested)
      (hrest : Binds c stack typeName rest
        ⟨p.selected.withField name.text (.mk definition.name name.text (some nested.selected)),
          nested.used⟩ q) :
      Binds c stack typeName (.field none name arguments directives
        (some (.mk list setSpan)) span :: rest) p q
  /-- A fragment on the type at hand. -/
  | same {stack inner : List String} {typeName : String} {s : Selection} {list rest : List Selection}
      {p opened middle q : Progress} (hopens : Opens c stack typeName p s inner typeName list opened)
      (hlist : Binds c inner typeName list opened middle) (hrest : Binds c stack typeName rest middle q) :
      Binds c stack typeName (s :: rest) p q
  /-- A fragment on one of the object types of the type at hand. -/
  | variant {stack inner : List String} {typeName condition : String} {s : Selection}
      {list rest : List Selection}
      {p opened variant q : Progress} (hopens : Opens c stack typeName p s inner condition list opened)
      (hother : condition ≠ typeName) (hadmits : c.graph.Admits typeName condition)
      (hvariant : Binds c inner condition list ⟨.empty condition, opened.used⟩ variant)
      (hrest : Binds c stack typeName rest ⟨opened.selected.withVariant condition variant.selected,
        variant.used⟩ q) :
      Binds c stack typeName (s :: rest) p q

variable {c : Context} {stack inner : List String} {typeName condition wireName : String} {s : Selection}
  {list : List Selection} {set : Option SelectionSet} {span : Span} {p opened q : Progress}

theorem Opens.selection_eq (h : Opens c stack typeName p s inner condition list opened) :
    ∃ span, selection c stack typeName s p = fragment c inner typeName condition list span opened := by
  cases h with
  | @inline _ _ _ _ span => exact ⟨span, by rw [selection]⟩
  | @spread name _ span definition hdefinition hnew =>
      exact ⟨span, (selection_spread hdefinition).trans (if_neg hnew)⟩

/-- A fragment on another type, which has to be an object type of the type at hand. -/
theorem fragment_eq_ok_iff (hother : condition ≠ typeName) :
    fragment c stack typeName condition list span p = .ok q ↔ c.graph.Admits typeName condition ∧
      ∃ variant, selections c stack condition list ⟨.empty condition, p.used⟩ = .ok variant ∧
        q = ⟨p.selected.withVariant condition variant.selected, variant.used⟩ := by
  constructor
  · intro h
    cases hfault : c.conditionFault? typeName condition with
    | some fault =>
        rw [fragment_of_fault hfault] at h
        cases h
    | none =>
        have hadmits := Context.admits_of_no_fault hother hfault
        rw [fragment_of_admits hother hadmits, Except.map_eq_ok] at h
        obtain ⟨variant, hvariant, rfl⟩ := h
        exact ⟨hadmits, variant, hvariant, rfl⟩
  · rintro ⟨hadmits, variant, hvariant, rfl⟩
    rw [fragment_of_admits hother hadmits, hvariant]
    rfl

theorem field_typename (h : field c stack typeName "__typename" set span p = .ok q) :
    set = none ∧ q = ⟨p.selected.selectTypename, p.used⟩ := by
  rw [field.eq_def, if_pos rfl] at h
  cases set with
  | some set => cases h
  | none =>
      cases h
      exact ⟨rfl, rfl⟩

/-- What is selected from a field: nothing more from a leaf, and something from a composite type. -/
def nestedOf (c : Context) (stack : List String) (target : TypeDefinition) (p : Progress) :
    Option SelectionSet → Bool → Option (Except BindError (Option Selected × List String))
  | some (.mk list _), true =>
      some ((selections c stack target.name list ⟨.empty target.name, p.used⟩).map fun nested =>
        (some nested.selected, nested.used))
  | none, false => some (.ok (none, p.used))
  | _, _ => none

theorem nestedOf_eq_ok_iff {target : TypeDefinition} {composite : Bool}
    {nested : Option Selected × List String} :
    nestedOf c stack target p set composite = some (.ok nested) ↔
      (composite = false ∧ set = none ∧ nested = (none, p.used)) ∨
        ∃ list span bound, composite = true ∧ set = some (.mk list span) ∧
          selections c stack target.name list ⟨.empty target.name, p.used⟩ = .ok bound ∧
          nested = (some bound.selected, bound.used) := by
  constructor
  · intro h
    cases set with
    | none =>
        cases composite with
        | true => cases h
        | false =>
            cases h
            exact .inl ⟨rfl, rfl, rfl⟩
    | some set =>
        obtain ⟨list, span⟩ := set
        cases composite with
        | false => cases h
        | true =>
            obtain ⟨bound, hbound, rfl⟩ := Except.map_eq_ok.1 (Option.some.inj h)
            exact .inr ⟨list, span, bound, rfl, rfl, hbound, rfl⟩
  · rintro (⟨rfl, rfl, rfl⟩ | ⟨list, span, bound, rfl, rfl, hbound, rfl⟩)
    · rfl
    · rw [nestedOf, hbound]
      rfl

theorem field_eq_ok_iff (hname : wireName ≠ "__typename") :
    field c stack typeName wireName set span p = .ok q ↔ ∃ definition target,
      c.graph.Declares typeName wireName definition target ∧ ∃ nested,
        nestedOf c stack target p set target.kind.isComposite = some (.ok nested) ∧
        q = ⟨p.selected.withField wireName (.mk definition.name wireName nested.1), nested.2⟩ := by
  constructor
  · intro h
    cases hfault : c.fieldFault? typeName wireName set.isSome with
    | some fault =>
        rw [field_of_fault hfault] at h
        cases h
    | none =>
        obtain ⟨definition, target, hdeclares, hkind⟩ := Context.declares_of_no_fault hname hfault
        refine ⟨definition, target, hdeclares, ?_⟩
        cases set with
        | none =>
            rw [field_leaf hname hdeclares hkind] at h
            cases h
            exact ⟨(none, p.used), by rw [hkind]; rfl, rfl⟩
        | some set =>
            obtain ⟨list, setSpan⟩ := set
            rw [field_nested hname hdeclares hkind] at h
            obtain ⟨bound, hbound, rfl⟩ := Except.map_eq_ok.1 h
            exact ⟨(some bound.selected, bound.used),
              by rw [hkind, Option.isSome, nestedOf, hbound]; rfl, rfl⟩
  · rintro ⟨definition, target, hdeclares, nested, hnested, rfl⟩
    rcases nestedOf_eq_ok_iff.1 hnested with ⟨hkind, rfl, rfl⟩ |
      ⟨list, setSpan, bound, hkind, rfl, hbound, rfl⟩
    · exact field_leaf hname hdeclares hkind
    · rw [field_nested hname hdeclares hkind, hbound]
      rfl

theorem binds_of_selections (h : selections c stack typeName list p = .ok q) :
    Binds c stack typeName list p q := by
  revert q
  apply selections.induct c
    (fun stack typeName list p =>
      ∀ {q}, selections c stack typeName list p = .ok q → Binds c stack typeName list p q)
    (fun stack typeName s p => ∀ {q}, selection c stack typeName s p = .ok q →
      ∀ {rest r}, Binds c stack typeName rest q r → Binds c stack typeName (s :: rest) p r)
    (fun inner typeName condition list span opened => ∀ {q},
      fragment c inner typeName condition list span opened = .ok q →
      ∀ {stack s p rest r}, Opens c stack typeName p s inner condition list opened →
        Binds c stack typeName rest q r → Binds c stack typeName (s :: rest) p r)
    (fun stack typeName wireName set span p => ∀ {q},
      field c stack typeName wireName set span p = .ok q →
      ∀ {name arguments directives span rest r}, name.text = wireName → Binds c stack typeName rest q r →
        Binds c stack typeName (.field none name arguments directives set span :: rest) p r)
  case case1 =>
    intro stack typeName p q h
    rw [selections] at h
    cases h
    exact .nil
  case case2 =>
    intro stack typeName p s rest hs hrest q h
    rw [selections] at h
    obtain ⟨middle, hmiddle, h⟩ := Except.bind_eq_ok.1 h
    exact hs hmiddle (hrest middle h)
  case case3 =>
    intro stack typeName p key name arguments directives set span q h
    rw [selection] at h
    cases h
  case case4 =>
    intro stack typeName p name arguments directives set span hfield q h rest r hrest
    rw [selection] at h
    exact hfield h rfl hrest
  case case5 =>
    intro stack typeName p condition directives list setSpan span hfragment q h rest r hrest
    rw [selection] at h
    exact hfragment h .inline hrest
  case case6 =>
    intro stack typeName p name directives span hnone q h
    rw [selection] at h
    split at h
    · cases h
    · rename_i hsome
      rw [hnone] at hsome
      cases hsome
  case case7 =>
    intro stack typeName p name directives span definition _ hmem q h
    rw [selection] at h
    split at h
    · cases h
    · rw [dif_pos hmem] at h
      cases h
  case case8 =>
    intro stack typeName p name directives span definition hdefinition hnew _ hfragment q h rest r hrest
    have hopens : Opens c stack typeName p (.spread name directives span) _ _ _ _ := .spread hdefinition hnew
    rw [selection] at h
    split at h
    · cases h
    · rename_i found hfound
      obtain rfl := Option.some.inj (hdefinition.symm.trans hfound)
      rw [dif_neg hnew] at h
      exact hfragment h hopens hrest
  case case9 =>
    intro inner typeName list span opened hlist q h stack s p rest r hopens hrest
    rw [fragment_same] at h
    exact .same hopens (hlist h) hrest
  case case10 =>
    intro inner typeName condition list span opened hother hlist q h stack s p rest r hopens hrest
    obtain ⟨hadmits, variant, hvariant, rfl⟩ := (fragment_eq_ok_iff hother).1 h
    exact .variant hopens hother hadmits (hlist hvariant) hrest
  case case11 =>
    intro stack typeName span p set q h
    cases (field_typename h).1
  case case12 =>
    intro stack typeName span p q h name arguments directives span' rest r hname hrest
    obtain ⟨-, rfl⟩ := field_typename h
    exact .typename hname hrest
  case case13 =>
    rintro stack typeName wireName set span p hne hnested q h name arguments directives span' rest r rfl hrest
    obtain ⟨definition, target, hdeclares, nested, hof, rfl⟩ := (field_eq_ok_iff hne).1 h
    rcases nestedOf_eq_ok_iff.1 hof with ⟨hkind, rfl, rfl⟩ | ⟨list, setSpan, bound, hkind, rfl, hbound, rfl⟩
    · exact .leaf hne hdeclares hkind hrest
    · have hinner := hnested target
      rw [hkind] at hinner
      exact .nested hne hdeclares hkind (hinner hbound) hrest

theorem selections_cons_of {middle : Progress} {rest : List Selection}
    (hs : selection c stack typeName s p = .ok middle)
    (hrest : selections c stack typeName rest middle = .ok q) :
    selections c stack typeName (s :: rest) p = .ok q := by
  rw [selections]
  exact Except.bind_eq_ok.2 ⟨middle, hs, hrest⟩

theorem selections_of_binds (h : Binds c stack typeName list p q) :
    selections c stack typeName list p = .ok q := by
  induction h with
  | nil => rw [selections]
  | typename hname _ ih =>
      refine selections_cons_of ?_ ih
      rw [selection, hname, field.eq_def, if_pos rfl]
  | leaf hname hdeclares hleaf _ ih =>
      refine selections_cons_of ?_ ih
      rw [selection]
      exact (field_eq_ok_iff hname).2 ⟨_, _, hdeclares, (none, _), by rw [hleaf]; rfl, rfl⟩
  | nested hname hdeclares hcomposite _ _ ihnested ih =>
      refine selections_cons_of ?_ ih
      rw [selection]
      exact (field_eq_ok_iff hname).2 ⟨_, _, hdeclares,
        (some _, _), by rw [hcomposite, nestedOf, ihnested]; rfl, rfl⟩
  | same hopens _ _ ihlist ih =>
      refine selections_cons_of ?_ ih
      obtain ⟨span, hselection⟩ := hopens.selection_eq
      rw [hselection, fragment_same, ihlist]
  | variant hopens hother hadmits _ _ ihvariant ih =>
      refine selections_cons_of ?_ ih
      obtain ⟨span, hselection⟩ := hopens.selection_eq
      rw [hselection]
      exact (fragment_eq_ok_iff hother).2 ⟨hadmits, _, ihvariant, rfl⟩

/-- **Binding is derivation.** -/
theorem selections_eq_ok_iff : selections c stack typeName list p = .ok q ↔ Binds c stack typeName list p q :=
  ⟨binds_of_selections, selections_of_binds⟩

/-- What an operation is that a definition is bound to, with the fragments that it uses. -/
structure Gives (graph : TypeGraph) (source : String) (fragments : Table FragmentDefinition)
    (definition : OperationDefinition) (op : Operation) (used : List String) : Prop where
  name : definition.name.map (·.text) = some op.name
  kind : op.kind = definition.kind
  root : graph.rootType? definition.kind = some op.rootType
  binds : Binds ⟨graph, fragments, op.name⟩ [] op.rootType definition.set.selections ⟨.empty op.rootType, []⟩
    ⟨op.selection, used⟩
  variableDefinitions : op.variableDefinitions = definition.variableDefinitions.map fun v =>
    ⟨v.name.text, v.type.text, v.default.map fun value => value.span.text source⟩
  source : op.source = operationSource source fragments definition.span used

theorem operation_eq_ok_iff {graph : TypeGraph} {source : String} {fragments : Table FragmentDefinition}
    {definition : OperationDefinition} {op : Operation} :
    operation graph source fragments definition = .ok op ↔
      ∃ used, Gives graph source fragments definition op used := by
  unfold operation
  constructor
  · intro h
    cases hname : definition.name with
    | none =>
        rw [hname] at h
        cases h
    | some name =>
        rw [hname] at h
        cases hroot : graph.rootType? definition.kind with
        | none =>
            rw [hroot] at h
            cases h
        | some root =>
            rw [hroot] at h
            obtain ⟨bound, hbound, h⟩ := Except.bind_eq_ok.1 h
            cases h
            exact ⟨bound.used, by rw [hname]; rfl, rfl, hroot, selections_eq_ok_iff.1 hbound, rfl, rfl⟩
  · rintro ⟨used, hname, hkind, hroot, hbinds, hvariables, hsource⟩
    obtain ⟨opName, opKind, opRoot, opSelection, opVariables, opSource⟩ := op
    dsimp only at hname hkind hroot hbinds hvariables hsource
    subst hkind hvariables hsource
    cases hsome : definition.name with
    | none =>
        rw [hsome] at hname
        cases hname
    | some name =>
        rw [hsome] at hname
        cases hname
        dsimp only
        rw [hroot]
        exact Except.bind_eq_ok.2 ⟨_, selections_eq_ok_iff.2 hbinds, rfl⟩

end Bind

/-- The fragments of a document by name; of two with one name the later one counts. -/
def Document.fragmentTable (document : Document) : Table FragmentDefinition :=
  Table.ofList (document.fragments.map fun f => (f.name.text, f))

/-- **A document is bound** if it has no mistakes and every operation of it is. -/
theorem bind_eq_ok_iff {graph : TypeGraph} {source : String} {ops : List Operation} :
    bind graph source = .ok ops ↔ (parseDocument source).diagnostics = [] ∧
      List.Forall₂ (fun definition op => ∃ used,
        Bind.Gives graph source (parseDocument source).document.fragmentTable definition op used)
        (parseDocument source).document.operations ops := by
  unfold bind
  dsimp only
  cases (parseDocument source).diagnostics with
  | cons d rest => simp
  | nil =>
      dsimp only
      constructor
      · intro h
        exact ⟨rfl, (forall₂_of_mapM h).imp fun definition op hop => Bind.operation_eq_ok_iff.1 hop⟩
      · rintro ⟨-, h⟩
        exact mapM_of_forall₂ (h.imp fun definition op hop => Bind.operation_eq_ok_iff.2 hop)

section Feed

open Introspection (Declaration Reference)

/-- A feed of users and posts. -/
def feedSchema : Introspection.Schema :=
  let named (kind : Introspection.Kind) (name : String) : Reference := .mk kind (some name) none
  let field (name : String) (type : Reference) : Introspection.Field := ⟨name, none, [], type, false, none⟩
  let object (name : String) (fields : List Introspection.Field) : Declaration :=
    { Declaration.bare .object name with fields := some fields }
  ⟨none, none, none,
    [object "Query" [field "feed" (.mk .list none (some (named .interface "Node")))],
      { Declaration.bare .interface "Node" with
        fields := some [field "id" (.mk .nonNull none (some (named .scalar "ID")))]
        possibleTypes := some [named .object "User", named .object "Post"] },
      object "User" [field "id" (.mk .nonNull none (some (named .scalar "ID"))),
        field "name" (named .scalar "String")],
      object "Post" [field "id" (.mk .nonNull none (some (named .scalar "ID"))),
        field "author" (named .object "User")]]⟩

def feedGraph : TypeGraph :=
  match TypeGraph.build feedSchema with
  | .ok graph => graph
  | .error _ => ⟨.empty, "", none, none⟩

theorem build_feedSchema : TypeGraph.build feedSchema = .ok feedGraph := rfl

/-- A fragment that is spread in two places, from a type that may be a user and from a user. -/
def feedDocument : String :=
  "fragment Card on User \x7b name \x7d
query Feed \x7b feed \x7b __typename ...Card ... on Post \x7b author \x7b ...Card \x7d \x7d id \x7d \x7d"

def feedOperation : Operation where
  name := "Feed"
  kind := .query
  rootType := "Query"
  selection := .mk "Query" [("feed", .mk "feed" "feed" (some (.mk "Node" [("id", .mk "id" "id" none)] true
    [("User", .mk "User" [("name", .mk "name" "name" none)] false []),
      ("Post", .mk "Post" [("author", .mk "author" "author"
        (some (.mk "User" [("name", .mk "name" "name" none)] false [])))] false [])])))] false []
  variableDefinitions := []
  source := "query Feed \x7b feed \x7b __typename ...Card ... on Post \x7b author \x7b ...Card \x7d \x7d id \x7d \x7d

fragment Card on User \x7b name \x7d"

theorem bind_feedDocument : bind feedGraph feedDocument = .ok [feedOperation] := by cbv

end Feed

end GraphClient
