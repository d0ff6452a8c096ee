import GraphClient.Proofs.Document.Derivation
import GraphClient.Proofs.Operation.Binding
import GraphClient.Proofs.Operation.Gathering

/-! What a document asks for. Fragments are taken apart where they are spread: one on the type at hand adds
to what is asked for of that type, and one on another type asks for something of that type (`Unfolds`). A
bound selection gathers what its document asks for, which fits the schema (`Bind.Binds.unfolds`). -/

namespace GraphClient

/-- The type condition of a fragment, if it has one, and its selections. -/
inductive Selection.Opened (fragment : String → Option FragmentDefinition) :
    Selection → Option String → List Selection → Prop
  | inline {condition : Option Name} {directives : List Directive} {list : List Selection}
      {setSpan span : Span} :
      Opened fragment (.inline condition directives (.mk list setSpan) span) (condition.map (·.text)) list
  | spread {name : Name} {directives : List Directive} {span : Span} {definition : FragmentDefinition}
      (hdefinition : fragment name.text = some definition) :
      Opened fragment (.spread name directives span)
        (some definition.condition.text) definition.set.selections

/-- That selections from a type ask for something, fragments taken apart. -/
inductive Unfolds (g : TypeGraph) (fragment : String → Option FragmentDefinition) :
    String → List Selection → List Asked → Prop
  | nil {typeName : String} : Unfolds g fragment typeName [] []
  | typename {typeName : String} {name : Name} {arguments : List Argument}
      {directives : List Directive} {span : Span}
      {rest : List Selection} {asked : List Asked} (hname : name.text = "__typename")
      (hrest : Unfolds g fragment typeName rest asked) :
      Unfolds g fragment typeName (.field none name arguments directives none span :: rest)
        (.typename :: asked)
  | leaf {typeName : String} {name : Name} {arguments : List Argument}
      {directives : List Directive} {span : Span}
      {rest : List Selection} {asked : List Asked} {definition : FieldDefinition} {target : TypeDefinition}
      (hname : name.text ≠ "__typename") (hdeclares : g.Declares typeName name.text definition target)
      (hrest : Unfolds g fragment typeName rest asked) :
      Unfolds g fragment typeName (.field none name arguments directives none span :: rest)
        (.leaf definition.name name.text :: asked)
  | nested {typeName : String} {name : Name} {arguments : List Argument} {directives : List Directive}
      {list : List Selection} {setSpan span : Span} {rest : List Selection} {inner asked : List Asked}
      {definition : FieldDefinition} {target : TypeDefinition}
      (hname : name.text ≠ "__typename") (hdeclares : g.Declares typeName name.text definition target)
      (hinner : Unfolds g fragment target.name list inner) (hrest : Unfolds g fragment typeName rest asked) :
      Unfolds g fragment typeName
        (.field none name arguments directives (some (.mk list setSpan)) span :: rest)
        (.nested definition.name name.text target.name inner :: asked)
  /-- A fragment without a type condition, or on the type at hand. -/
  | same {typeName : String} {condition : Option String} {s : Selection} {list rest : List Selection}
      {inner asked : List Asked} (hopened : s.Opened fragment condition list)
      (hsame : condition.getD typeName = typeName) (hinner : Unfolds g fragment typeName list inner)
      (hrest : Unfolds g fragment typeName rest asked) :
      Unfolds g fragment typeName (s :: rest) (inner ++ asked)
  /-- A fragment on another type. -/
  | other {typeName condition : String} {s : Selection} {list rest : List Selection}
      {inner asked : List Asked}
      (hopened : s.Opened fragment (some condition) list) (hother : condition ≠ typeName)
      (hinner : Unfolds g fragment condition list inner) (hrest : Unfolds g fragment typeName rest asked) :
      Unfolds g fragment typeName (s :: rest) (.on condition inner :: asked)

section

variable {g : TypeGraph} {fragment : String → Option FragmentDefinition} {typeName wireName : String}

theorem TypeGraph.Declares.unique {definition definition' : FieldDefinition} {target target' : TypeDefinition}
    (h : g.Declares typeName wireName definition target)
    (h' : g.Declares typeName wireName definition' target') :
    definition' = definition ∧ target' = target := by
  obtain ⟨⟨context, hcontext, hfield⟩, htarget⟩ := h
  obtain ⟨⟨context', hcontext', hfield'⟩, htarget'⟩ := h'
  obtain rfl := Option.some.inj (hcontext.symm.trans hcontext')
  obtain rfl := Option.some.inj (hfield.symm.trans hfield')
  exact ⟨rfl, Option.some.inj (htarget'.symm.trans htarget)⟩

theorem Selection.Opened.unique {s : Selection} {condition condition' : Option String}
    {list list' : List Selection}
    (h : s.Opened fragment condition list) (h' : s.Opened fragment condition' list') :
    condition' = condition ∧ list' = list := by
  cases h with
  | inline =>
      cases h'
      exact ⟨rfl, rfl⟩
  | spread hdefinition =>
      cases h' with
      | spread hdefinition' =>
          obtain rfl := Option.some.inj (hdefinition.symm.trans hdefinition')
          exact ⟨rfl, rfl⟩

/-- A document asks for one thing only. -/
theorem Unfolds.unique {list : List Selection} {as bs : List Asked} (h : Unfolds g fragment typeName list as)
    (h' : Unfolds g fragment typeName list bs) : bs = as := by
  induction h generalizing bs with
  | nil =>
      cases h'
      rfl
  | typename hname _ ih =>
      cases h' with
      | typename _ hrest => rw [ih hrest]
      | leaf hname' => exact absurd hname hname'
      | same hopened => cases hopened
      | other hopened => cases hopened
  | leaf hname hdeclares _ ih =>
      cases h' with
      | typename hname' => exact absurd hname' hname
      | leaf _ hdeclares' hrest =>
          obtain ⟨rfl, -⟩ := hdeclares.unique hdeclares'
          rw [ih hrest]
      | same hopened => cases hopened
      | other hopened => cases hopened
  | nested hname hdeclares _ _ ihinner ih =>
      cases h' with
      | nested _ hdeclares' hinner hrest =>
          obtain ⟨rfl, rfl⟩ := hdeclares.unique hdeclares'
          rw [ihinner hinner, ih hrest]
      | same hopened => cases hopened
      | other hopened => cases hopened
  | same hopened hsame _ _ ihinner ih =>
      cases h' with
      | same hopened' _ hinner hrest =>
          obtain ⟨rfl, rfl⟩ := hopened.unique hopened'
          rw [ihinner hinner, ih hrest]
      | other hopened' hother =>
          obtain ⟨rfl, rfl⟩ := hopened.unique hopened'
          exact absurd hsame hother
      | _ => cases hopened
  | other hopened hother _ _ ihinner ih =>
      cases h' with
      | same hopened' hsame =>
          obtain ⟨rfl, rfl⟩ := hopened.unique hopened'
          exact absurd hsame hother
      | other hopened' _ hinner hrest =>
          obtain ⟨heq, rfl⟩ := hopened.unique hopened'
          obtain rfl := Option.some.inj heq
          rw [ihinner hinner, ih hrest]
      | _ => cases hopened

end

/-- That something may be asked for of a type. -/
inductive Asked.Fits (g : TypeGraph) : String → Asked → Prop
  | typename {typeName : String} : Fits g typeName .typename
  | leaf {typeName wireName : String} {definition : FieldDefinition} {target : TypeDefinition}
      (hdeclares : g.Declares typeName wireName definition target) (hleaf : target.kind.isComposite = false) :
      Fits g typeName (.leaf definition.name wireName)
  | nested {typeName wireName : String} {definition : FieldDefinition} {target : TypeDefinition}
      {inner : List Asked}
      (hdeclares : g.Declares typeName wireName definition target)
      (hcomposite : target.kind.isComposite = true)
      (hnonempty : inner ≠ []) (hinner : ∀ a ∈ inner, Fits g target.name a) :
      Fits g typeName (.nested definition.name wireName target.name inner)
  | on {typeName condition : String} {inner : List Asked} (hadmits : g.Admits typeName condition)
      (hnonempty : inner ≠ []) (hinner : ∀ a ∈ inner, Fits g condition a) :
      Fits g typeName (.on condition inner)

namespace Bind

@[simp] theorem selected_use (p : Progress) (name : String) : (p.use name).selected = p.selected := by
  unfold Progress.use
  split <;> rfl

variable {c : Context} {stack inner : List String} {typeName condition : String} {s : Selection}
  {list : List Selection} {p opened q : Progress}

/-- What a fragment opens is its part of the document. -/
theorem Opens.written (hfragments : ∀ name definition, c.fragments.get? name = some definition →
    definition.set.Full)
    (h : Opens c stack typeName p s inner condition list opened)
    (hfull : ∀ set, s.set? = some set → set.Full) :
    opened.selected = p.selected ∧ (list ≠ [] ∧ ∀ s ∈ list, ∀ set, s.set? = some set → set.Full) ∧ ∃ written,
      s.Opened c.fragments.get? written list ∧ written.getD typeName = condition ∧
        (condition ≠ typeName → written = some condition) := by
  cases h with
  | @inline written _ _ _ span =>
      refine ⟨rfl, (hfull _ rfl).selections, _, .inline, rfl, fun hother => ?_⟩
      cases written with
      | none => exact absurd rfl hother
      | some => rfl
  | @spread name _ _ definition hdefinition _ =>
      exact ⟨selected_use p _, (hfragments _ _ hdefinition).selections, _,
        .spread hdefinition, rfl, fun _ => rfl⟩

/-- What is known of a step of binding: what the document asks for there, that it may be asked for,
and that the selection gathers it behind what it gathered before. -/
structure Gained (c : Context) (typeName : String) (list : List Selection) (p q : Progress)
    (asked : List Asked) : Prop where
  unfolds : Unfolds c.graph c.fragments.get? typeName list asked
  fits : ∀ a ∈ asked, Asked.Fits c.graph typeName a
  nonempty : list ≠ [] → asked ≠ []
  gathers : ∀ as, Gathers p.selected as → Gathers q.selected (as ++ asked)
  typeName : q.selected.typeName = p.selected.typeName

/-- **A bound selection gathers what the document asks for.** -/
theorem Binds.unfolds (hfragments : ∀ name definition, c.fragments.get? name = some definition →
    definition.set.Full)
    (h : Binds c stack typeName list p q) (hfull : ∀ s ∈ list, ∀ set, s.set? = some set → set.Full) :
    ∃ asked, Gained c typeName list p q asked := by
  induction h with
  | nil => exact ⟨[], .nil, nofun, fun h => absurd rfl h, fun as h => by rwa [List.append_nil], rfl⟩
  | typename hname _ ih =>
      obtain ⟨asked, hrest⟩ := ih fun s hs => hfull s (List.mem_cons_of_mem _ hs)
      refine ⟨_, .typename hname hrest.unfolds, List.forall_mem_cons.2 ⟨.typename, hrest.fits⟩,
        fun _ => List.cons_ne_nil _ _, fun as has => ?_, hrest.typeName⟩
      have hall := hrest.gathers _ has.selectTypename
      rwa [List.append_assoc] at hall
  | leaf hname hdeclares hleaf _ ih =>
      obtain ⟨asked, hrest⟩ := ih fun s hs => hfull s (List.mem_cons_of_mem _ hs)
      refine ⟨_, .leaf hname hdeclares hrest.unfolds,
        List.forall_mem_cons.2 ⟨.leaf hdeclares hleaf, hrest.fits⟩,
        fun _ => List.cons_ne_nil _ _, fun as has => ?_, hrest.typeName⟩
      have hall := hrest.gathers _ (has.withLeaf _ _)
      rwa [List.append_assoc] at hall
  | @nested _ _ _ _ _ _ setSpan _ _ _ _ _ definition target hname hdeclares hcomposite _ _ ihnested ih =>
      obtain ⟨asked, hrest⟩ := ih fun s hs => hfull s (List.mem_cons_of_mem _ hs)
      obtain ⟨hnonempty, hinner⟩ := hfull _ List.mem_cons_self _ rfl
      obtain ⟨inside, hinside⟩ := ihnested hinner
      refine ⟨_, .nested hname hdeclares hinside.unfolds hrest.unfolds,
        List.forall_mem_cons.2 ⟨.nested hdeclares hcomposite (hinside.nonempty hnonempty) hinside.fits,
          hrest.fits⟩,
        fun _ => List.cons_ne_nil _ _, fun as has => ?_, hrest.typeName⟩
      have hone := has.withNested (hinside.gathers _ (.empty _)) definition.name
      rw [hinside.typeName] at hone
      have hall := hrest.gathers _ (hone _)
      rwa [List.append_assoc] at hall
  | same hopens _ _ ihlist ih =>
      obtain ⟨hselected, ⟨hnonempty, hinner⟩, written, hopened, hsame, -⟩ :=
        hopens.written hfragments (hfull _ List.mem_cons_self)
      obtain ⟨inside, hinside⟩ := ihlist hinner
      obtain ⟨asked, hrest⟩ := ih fun s hs => hfull s (List.mem_cons_of_mem _ hs)
      refine ⟨_, .same hopened hsame hinside.unfolds hrest.unfolds, ?_,
        fun _ => List.append_ne_nil_of_left_ne_nil (hinside.nonempty hnonempty) _, fun as has => ?_, ?_⟩
      · exact fun a ha => (List.mem_append.1 ha).elim (hinside.fits a) (hrest.fits a)
      · have hall := hrest.gathers _ (hinside.gathers as (hselected.symm ▸ has))
        rwa [List.append_assoc] at hall
      · rw [hrest.typeName, hinside.typeName, hselected]
  | variant hopens hother hadmits _ _ ihvariant ih =>
      obtain ⟨hselected, ⟨hnonempty, hinner⟩, written, hopened, -, hwritten⟩ :=
        hopens.written hfragments (hfull _ List.mem_cons_self)
      obtain rfl := hwritten hother
      obtain ⟨inside, hinside⟩ := ihvariant hinner
      obtain ⟨asked, hrest⟩ := ih fun s hs => hfull s (List.mem_cons_of_mem _ hs)
      refine ⟨_, .other hopened hother hinside.unfolds hrest.unfolds,
        List.forall_mem_cons.2 ⟨.on hadmits (hinside.nonempty hnonempty) hinside.fits, hrest.fits⟩,
        fun _ => List.cons_ne_nil _ _, fun as has => ?_, ?_⟩
      · have hone := has.withVariant (hinside.gathers _ (.empty _))
        rw [hinside.typeName, ← hselected] at hone
        have hall := hrest.gathers _ hone
        rwa [List.append_assoc] at hall
      · rw [hrest.typeName, ← hselected]
        rfl

end Bind

/-- The last fragment of a name. -/
def Document.fragment? (document : Document) (name : String) : Option FragmentDefinition :=
  document.fragments.reverse.find? fun f => f.name.text == name

theorem Document.get?_fragmentTable (document : Document) :
    document.fragmentTable.get? = document.fragment? := by
  funext name
  rw [fragmentTable, Table.get?_ofList, fragment?, ← List.map_reverse]
  generalize document.fragments.reverse = list
  induction list with
  | nil => rfl
  | cons f rest ih =>
      rw [List.map_cons, Table.lookup_cons_eq, ih, List.find?_cons]
      by_cases h : f.name.text = name
      · rw [if_pos h.symm, beq_iff_eq.2 h]
      · rw [if_neg (Ne.symm h), beq_false_of_ne h]

/-- That an operation is what a definition of a document asks for. -/
structure Operation.Answers (graph : TypeGraph) (document : Document) (definition : OperationDefinition)
    (op : Operation) (asked : List Asked) : Prop where
  unfolds : Unfolds graph document.fragment? op.rootType definition.set.selections asked
  fits : ∀ a ∈ asked, Asked.Fits graph op.rootType a
  nonempty : asked ≠ []
  gathers : Gathers op.selection asked
  typeName : op.selection.typeName = op.rootType
  kind : op.kind = definition.kind
  root : graph.rootType? op.kind = some op.rootType

/-- **Bound operations answer their definitions.** -/
theorem answers_of_bind {graph : TypeGraph} {source : String} {ops : List Operation}
    (h : bind graph source = .ok ops) :
    List.Forall₂ (fun definition op => ∃ asked,
      op.Answers graph (parseDocument source).document definition asked)
      (parseDocument source).document.operations ops := by
  obtain ⟨hclean, hall⟩ := bind_eq_ok_iff.1 h
  have hfragments : ∀ name definition, (parseDocument source).document.fragmentTable.get? name =
      some definition →
      definition.set.Full := by
    intro name definition hget
    rw [Document.get?_fragmentTable] at hget
    have hmem := List.mem_reverse.1 (List.mem_of_find?_eq_some hget)
    obtain ⟨d, hd, hfragment⟩ := List.mem_filterMap.1 hmem
    cases d with
    | operation => cases hfragment
    | fragment =>
        cases hfragment
        exact full_of_parseDocument hclean hd
  have hset : ∀ definition ∈ (parseDocument source).document.operations, definition.set.Full := by
    intro definition hmem
    obtain ⟨d, hd, hoperation⟩ := List.mem_filterMap.1 hmem
    cases d with
    | fragment => cases hoperation
    | operation =>
        cases hoperation
        exact full_of_parseDocument hclean hd
  refine ((List.forall₂_and_left _ _).2 ⟨hset, hall⟩).imp ?_
  rintro definition op ⟨hfull, used, hgives⟩
  obtain ⟨hnonempty, hinner⟩ := hfull.selections
  obtain ⟨asked, hgained⟩ := hgives.binds.unfolds hfragments hinner
  have hunfolds := hgained.unfolds
  rw [Document.get?_fragmentTable] at hunfolds
  exact ⟨asked, hunfolds, hgained.fits, hgained.nonempty hnonempty,
    hgained.gathers [] (.empty _), hgained.typeName, hgives.kind, hgives.kind.symm ▸ hgives.root⟩

end GraphClient
