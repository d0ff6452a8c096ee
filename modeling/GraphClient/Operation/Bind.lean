import GraphClient.Document.Parser
import GraphClient.Operation.Selected
import GraphClient.Schema.TypeGraph

/-! Binding a document to a schema. Every field is looked up on the type that it is selected from;
fragments are taken apart where they are spread. A fragment on the type at hand adds to the selection
itself, and one on an object type of an abstract type at hand to the selection from that object type.

Binding ends although fragments refer to each other by name: the fragments being spread are kept on a
stack, none may come twice, and so with every spread fewer fragments are left (`Context.unspread`). -/

namespace GraphClient

/-- Why a selection does not agree with the schema. -/
inductive SelectionFault
  | notInSchema
  | unknownType (condition : String)
  | notPossible (condition typeName : String)
  | unionField
  | noField (typeName field : String)
  | needsSelection (target : String)
  | leafSelection
  deriving DecidableEq, Repr

def SelectionFault.text : SelectionFault → String
  | notInSchema => "type is not in the schema"
  | unknownType condition => "unknown type `" ++ condition ++ "`"
  | notPossible condition typeName =>
      "`" ++ condition ++ "` is not a possible type of `" ++ typeName ++ "`"
  | unionField => "unions have no fields, select through `... on <Type>`"
  | noField typeName field => "`" ++ typeName ++ "` has no field `" ++ field ++ "`"
  | needsSelection target => "`" ++ target ++ "` is composite and needs a sub-selection"
  | leafSelection => "leaf field has a sub-selection"

/-- Why a document cannot be bound. -/
inductive BindFault
  | malformed (message : String)
  | mismatch (operation typeName field : String) (fault : SelectionFault)
  | unknownFragment (name : String)
  | fragmentCycle (name : String)
  | anonymous
  | missingRoot (operation : String) (kind : OperationKind)
  | aliased (key field : String)
  deriving DecidableEq, Repr

/-- A fault and its place in the document. -/
structure BindError where
  fault : BindFault
  span : Span
  deriving DecidableEq, Repr

namespace BindFault

def message : BindFault → String
  | malformed message => "syntax error: " ++ message
  | mismatch operation typeName field fault =>
      "in operation `" ++ operation ++ "`, `" ++ typeName ++ "." ++ field ++ "`: " ++ fault.text
  | unknownFragment name => "unknown fragment `" ++ name ++ "`"
  | fragmentCycle name => "fragment `" ++ name ++ "` spreads itself"
  | anonymous => "anonymous operations are not supported"
  | missingRoot operation kind =>
      "schema has no " ++ kind.text ++ " root type (operation `" ++ operation ++ "`)"
  | .aliased key field => "field aliases are not supported (`" ++ key ++ ": " ++ field ++ "`)"

/-- What is said at the place itself. -/
def label : BindFault → String
  | malformed message => message
  | mismatch _ _ _ fault => fault.text
  | unknownFragment _ => "not defined in this document"
  | fragmentCycle _ => "cycle closes here"
  | anonymous => "operation has no name"
  | missingRoot _ kind => "no " ++ kind.text ++ " type"
  | .aliased _ _ => "remove this alias"

/-- The code under which an error is documented. -/
def code : BindFault → String
  | malformed _ => "livegql::bind::syntax"
  | mismatch _ _ _ _ => "livegql::bind::selection_mismatch"
  | unknownFragment _ => "livegql::bind::unknown_fragment"
  | fragmentCycle _ => "livegql::bind::fragment_cycle"
  | anonymous => "livegql::bind::anonymous_operation"
  | missingRoot _ _ => "livegql::bind::missing_root_type"
  | .aliased _ _ => "livegql::bind::unsupported_alias"

/-- What to do about an error. -/
def help? : BindFault → Option String
  | anonymous => some "give the operation a name, e.g. `query MainQuery \x7b ... \x7d`"
  | _ => none

end BindFault

namespace Bind

/-- What binding an operation looks things up in. -/
structure Context where
  graph : TypeGraph
  fragments : Table FragmentDefinition
  /-- The name of the operation, for messages. -/
  operation : String

namespace Context

/-- The number of fragments that are not being spread. -/
def unspread (c : Context) (stack : List String) : Nat :=
  (c.fragments.names.filter fun n => n ∉ stack).length

theorem length_filter_not_mem_cons_lt {name : String} {stack names : List String} (hmem : name ∈ names)
    (hnew : name ∉ stack) :
    (names.filter fun n => n ∉ name :: stack).length < (names.filter fun n => n ∉ stack).length := by
  have hsub : (names.filter fun n => n ∉ name :: stack) =
      (names.filter fun n => n ∉ stack).filter fun n => n ≠ name := by
    rw [List.filter_filter]
    exact List.filter_congr fun n _ => by simp [not_or]
  rw [hsub, List.length_filter_lt_length_iff_exists]
  exact ⟨name, by simp [hmem, hnew], by simp⟩

theorem unspread_cons_lt {c : Context} {stack : List String} {name : String}
    {definition : FragmentDefinition} (hdef : c.fragments.get? name = some definition)
    (hnew : name ∉ stack) : c.unspread (name :: stack) < c.unspread stack :=
  length_filter_not_mem_cons_lt (Table.mem_names_of_get? hdef) hnew

def mismatch (c : Context) (typeName field : String) (fault : SelectionFault) (span : Span) : BindError :=
  ⟨.mismatch c.operation typeName field fault, span⟩

/-- The definition of a type, which a bound graph always has. -/
def type (c : Context) (name : String) (span : Span) : Except BindError TypeDefinition :=
  match c.graph.get? name with
  | some t => .ok t
  | none => .error (c.mismatch name "" .notInSchema span)

end Context

/-- What has been selected so far, and the fragments spread so far in order of first use. -/
structure Progress where
  selected : Selected
  used : List String

/-- Notes a spread. -/
def Progress.use (p : Progress) (name : String) : Progress :=
  if p.used.contains name then p else { p with used := p.used ++ [name] }

mutual

/-- Adds selections from a type to what has been selected from it. -/
def selections (c : Context) (stack : List String) (typeName : String) (list : List Selection)
    (p : Progress) : Except BindError Progress :=
  match list with
  | [] => .ok p
  | s :: rest => do
      let p ← selection c stack typeName s p
      selections c stack typeName rest p
termination_by (c.unspread stack, sizeOf list)

def selection (c : Context) (stack : List String) (typeName : String) (s : Selection) (p : Progress) :
    Except BindError Progress :=
  match s with
  | .field (some key) name _ _ _ span => .error ⟨.aliased key.text name.text, span⟩
  | .field none name _ _ set span => field c stack typeName name.text set span p
  | .inline condition _ (.mk list _) span =>
      fragment c stack typeName ((condition.map (·.text)).getD typeName) list span p
  | .spread name _ span =>
      match hdef : c.fragments.get? name.text with
      | none => .error ⟨.unknownFragment name.text, span⟩
      | some definition =>
          if hmem : name.text ∈ stack then .error ⟨.fragmentCycle name.text, span⟩
          else
            have := c.unspread_cons_lt hdef hmem
            fragment c (name.text :: stack) typeName definition.condition.text definition.set.selections span
              (p.use name.text)
termination_by (c.unspread stack, sizeOf s)

/-- Adds the selections of a fragment with a type condition. -/
def fragment (c : Context) (stack : List String) (typeName condition : String) (list : List Selection)
    (span : Span) (p : Progress) : Except BindError Progress :=
  if condition = typeName then selections c stack typeName list p
  else do
    let context ← c.type typeName span
    if !c.graph.contains condition then
      .error (c.mismatch typeName ("... on " ++ condition) (.unknownType condition) span)
    else if !context.kind.isAbstract || !context.isPossibleType condition then
      .error (c.mismatch typeName ("... on " ++ condition) (.notPossible condition typeName) span)
    else
      let variant ← selections c stack condition list ⟨.empty condition, p.used⟩
      return ⟨p.selected.withVariant condition variant.selected, variant.used⟩
termination_by (c.unspread stack, sizeOf list + 1)

/-- Adds a field. -/
def field (c : Context) (stack : List String) (typeName wireName : String) (set : Option SelectionSet)
    (span : Span) (p : Progress) : Except BindError Progress :=
  if wireName = "__typename" then
    match set with
    | some _ => .error (c.mismatch typeName wireName .leafSelection span)
    | none => .ok { p with selected := p.selected.selectTypename }
  else do
    let context ← c.type typeName span
    match context.field? wireName with
    | none =>
        let fault := if context.kind = .union then .unionField else .noField typeName wireName
        .error (c.mismatch typeName wireName fault span)
    | some definition =>
        let target ← c.type definition.type.typeName span
        match set, target.kind.isComposite with
        | some (.mk list _), true =>
            let nested ← selections c stack target.name list ⟨.empty target.name, p.used⟩
            return ⟨p.selected.withField wireName (.mk definition.name wireName (some nested.selected)),
              nested.used⟩
        | none, true => .error (c.mismatch typeName wireName (.needsSelection target.name) span)
        | some _, false => .error (c.mismatch typeName wireName .leafSelection span)
        | none, false =>
            return { p with selected := p.selected.withField wireName (.mk definition.name wireName none) }
termination_by (c.unspread stack, sizeOf set)

end

/-- The text of an operation followed by the text of each fragment that it uses. -/
def operationSource (source : String) (fragments : Table FragmentDefinition) (span : Span)
    (used : List String) : String :=
  "\n\n".intercalate
    (span.text source :: (used.filterMap fragments.get?).map fun f => f.span.text source)

def operation (graph : TypeGraph) (source : String) (fragments : Table FragmentDefinition)
    (definition : OperationDefinition) : Except BindError Operation :=
  match definition.name with
  | none => .error ⟨.anonymous, definition.span⟩
  | some name =>
      match graph.rootType? definition.kind with
      | none => .error ⟨.missingRoot name.text definition.kind, definition.span⟩
      | some root => do
          let bound ← selections ⟨graph, fragments, name.text⟩ [] root definition.set.selections
            ⟨.empty root, []⟩
          return {
            name := name.text
            kind := definition.kind
            rootType := root
            selection := bound.selected
            variableDefinitions := definition.variableDefinitions.map fun v =>
              ⟨v.name.text, v.type.text, v.default.map fun value => value.span.text source⟩
            source := operationSource source fragments definition.span bound.used }

end Bind

/-- Binds every operation of a document. Of two fragments with one name the later one counts. -/
def bind (graph : TypeGraph) (source : String) : Except BindError (List Operation) :=
  let parsed := parseDocument source
  match parsed.diagnostics with
  | d :: _ => .error ⟨.malformed d.fault.message, d.span⟩
  | [] =>
      let fragments := Table.ofList (parsed.document.fragments.map fun f => (f.name.text, f))
      parsed.document.operations.mapM (Bind.operation graph source fragments)

end GraphClient
