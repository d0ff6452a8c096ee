import GraphClient.Proofs.Bindings.Accessors
import Mathlib

/-! The names of generated types. Every type of the schema that is no scalar has a type of its name in
the module, and every operation has one for its handler. An operation that is called like a type of
the schema gives its handler a longer name, but that name is not compared with anything, and neither
are the operations of the documents with each other. So the names are distinct just if operations have
distinct names and no longer name is taken (`typeNames_nodup_iff`). -/

namespace GraphClient

/-- That a type of the schema has a type in the generated module: all but the scalars have. -/
def TypeGraph.IsGenerated (g : TypeGraph) (name : String) : Prop :=
  ∃ t, g.get? name = some t ∧ (t.kind = .enum ∨ t.kind.isComposite = true)

namespace Bindings

open Code

theorem typeNames_append (first second : List Code) :
    typeNames (first ++ second) = typeNames first ++ typeNames second :=
  List.filterMap_append

@[simp] theorem typeNames_docs (description : Option String) : typeNames (docs description) = [] := by
  apply List.filterMap_eq_nil_iff.2
  intro c hc
  obtain ⟨text, rfl⟩ := exists_doc_of_mem_docs hc
  rfl

theorem typeNames_header (options : Options) : typeNames (header options) = [] := rfl

theorem typeNames_enumCode (t : TypeDefinition) : typeNames (enumCode t) = [t.name] := by
  simp only [enumCode, typeNames_append, typeNames_docs]
  rfl

theorem typeNames_objectCode (s : Source) (t : TypeDefinition) : typeNames (objectCode s t) = [t.name] := by
  simp only [objectCode, typeNames_append, typeNames_docs]
  rfl

theorem typeNames_abstractCode (s : Source) (t : TypeDefinition) :
    typeNames (abstractCode s t) = [t.name] := by
  simp only [abstractCode, typeNames_append, typeNames_docs]
  rfl

theorem typeNames_operationCode (g : TypeGraph) (o : Operation) :
    typeNames (operationCode g o) = [handlerName g o] := rfl

/-- The names of pieces that have one type each. -/
theorem typeNames_flatMap {α : Type} {code : α → List Code} {name : α → String}
    (hcode : ∀ a, typeNames (code a) = [name a]) (items : List α) :
    typeNames (items.flatMap code) = items.map name := by
  rw [List.map_eq_flatMap]
  simp only [← hcode]
  exact List.filterMap_flatMap

/-- The types of a schema that the module has types for, in the order of the module. -/
def generatedTypes (g : TypeGraph) : List TypeDefinition :=
  g.ofKind .enum ++ g.ofKind .object ++ g.definitions.filter (·.kind.isAbstract)

theorem typeNames_moduleCode (s : Source) (operations : List Operation) {options : Options}
    (hoperations : options.operations = true) :
    typeNames (moduleCode s operations options) =
      (generatedTypes s.graph).map (·.name) ++ operations.map (handlerName s.graph) := by
  simp only [moduleCode, generatedTypes, typeNames_append, typeNames_header,
    if_pos hoperations, List.map_append,
    typeNames_flatMap typeNames_enumCode, typeNames_flatMap (typeNames_objectCode s),
    typeNames_flatMap (typeNames_abstractCode s),
    typeNames_flatMap (typeNames_operationCode s.graph), List.nil_append]

section

variable {g : TypeGraph}

theorem mem_generatedTypes {t : TypeDefinition} :
    t ∈ generatedTypes g ↔ t ∈ g.definitions ∧ (t.kind = .enum ∨ t.kind.isComposite = true) := by
  simp only [generatedTypes, TypeGraph.ofKind, List.mem_append, List.mem_filter, decide_eq_true_eq]
  cases t.kind <;> simp [TypeKind.isAbstract, TypeKind.isComposite]

theorem mem_generatedNames (hg : g.Filed) {name : String} :
    name ∈ (generatedTypes g).map (·.name) ↔ g.IsGenerated name := by
  simp only [List.mem_map, mem_generatedTypes]
  constructor
  · rintro ⟨t, ⟨ht, hkind⟩, rfl⟩
    exact ⟨t, hg.get?_name ht, hkind⟩
  · rintro ⟨t, hget, hkind⟩
    exact ⟨t, ⟨List.mem_map.2 ⟨_, Table.mem_of_get? hget, rfl⟩, hkind⟩, hg.name_of_get? hget⟩

theorem definitionNames_nodup (hg : g.Filed) : (g.definitions.map (·.name)).Nodup := by
  have hnames : g.definitions.map (·.name) = g.types.names := by
    rw [TypeGraph.definitions, Table.values, Table.names, List.map_map]
    exact List.map_congr_left hg.name
  rw [hnames]
  exact hg.nodup

/-- The types of the schema never clash: each is of one kind, and they are known by their names. -/
theorem generatedNames_nodup (hg : g.Filed) : ((generatedTypes g).map (·.name)).Nodup := by
  have hdefinitions : g.definitions.Nodup := (definitionNames_nodup hg).of_map _
  have hapart : (generatedTypes g).Nodup := by
    simp only [generatedTypes, TypeGraph.ofKind]
    refine ((hdefinitions.filter _).append (hdefinitions.filter _) ?_).append (hdefinitions.filter _) ?_
    · intro t ht ht'
      simp only [List.mem_filter, decide_eq_true_eq] at ht ht'
      simp [ht.2] at ht'
    · intro t ht ht'
      simp only [List.mem_append, List.mem_filter, decide_eq_true_eq] at ht ht'
      rcases ht with ht | ht <;> simp [ht.2, TypeKind.isAbstract] at ht'
  apply hapart.map_on
  intro t ht t' ht' hname
  exact List.inj_on_of_nodup_map (definitionNames_nodup hg) (mem_generatedTypes.1 ht).1
    (mem_generatedTypes.1 ht').1 hname

/-- That the longer name of an operation's handler is the plain name of another operation's handler. -/
def Crosses (g : TypeGraph) (o o' : Operation) : Prop :=
  g.contains o.name = true ∧ o'.name = o.name ++ "Operation" ∧ ¬g.contains o'.name = true

theorem handlerName_eq_iff {o o' : Operation} :
    handlerName g o = handlerName g o' ↔ o.name = o'.name ∨ Crosses g o o' ∨ Crosses g o' o := by
  unfold handlerName Crosses
  by_cases ho : g.contains o.name = true <;> by_cases ho' : g.contains o'.name = true
  · simp [ho, ho']
  · have hne : o.name ≠ o'.name := fun heq => ho' (heq ▸ ho)
    simp [ho, ho', hne, eq_comm]
  · have hne : o.name ≠ o'.name := fun heq => ho (heq ▸ ho')
    simp [ho, ho', hne]
  · simp [ho, ho']

/-- Handlers have distinct names just if operations have, and no longer name is that of another operation. -/
theorem handlerNames_nodup_iff {operations : List Operation} :
    (operations.map (handlerName g)).Nodup ↔
      (operations.map (·.name)).Nodup ∧ ∀ o ∈ operations, ∀ o' ∈ operations, ¬Crosses g o o' := by
  have hsplit : (operations.map (handlerName g)).Nodup ↔ (operations.map (·.name)).Nodup ∧
      operations.Pairwise fun o o' => ¬Crosses g o o' ∧ ¬Crosses g o' o := by
    unfold List.Nodup
    rw [List.pairwise_map, List.pairwise_map, ← List.pairwise_and_iff]
    apply iff_of_eq
    congr 1
    funext o o'
    simp only [ne_eq, handlerName_eq_iff, not_or]
  rw [hsplit, and_congr_right_iff]
  intro _
  constructor
  · intro hpairwise o ho o' ho'
    have hself : ∀ o : Operation, ¬Crosses g o o := fun o hcross => hcross.2.2 hcross.1
    exact (hpairwise.forall_of_forall_of_flip (fun o _ => ⟨hself o, hself o⟩)
      (hpairwise.imp And.symm) ho ho').1
  · intro hall
    exact List.pairwise_of_forall_mem_list fun o ho o' ho' => ⟨hall o ho o' ho', hall o' ho' o ho⟩

/-- The handler of an operation takes the name of a type only if its longer name is that of the type. -/
theorem handlerName_isGenerated {o : Operation} :
    g.IsGenerated (handlerName g o) ↔ g.contains o.name = true ∧ g.IsGenerated (o.name ++ "Operation") := by
  unfold handlerName
  split
  · rename_i hcontains
    simp [hcontains]
  · rename_i hcontains
    constructor
    · rintro ⟨t, hget, -⟩
      refine absurd ?_ hcontains
      change (g.get? o.name).isSome = true
      rw [hget]
      rfl
    · exact fun hand => absurd hand.1 hcontains

/-- **Distinct types.** In a module with handlers the names of all types are distinct just if no two
operations have one name and, for an operation that is called like a type of the schema, the name with
`Operation` behind it is neither that of another type nor that of an operation whose handler bears it. -/
theorem moduleNames_nodup_iff (hg : g.Filed) (scalars : Registry)
    (operations : List Operation) {options : Options} (hoperations : options.operations = true) :
    (typeNames (moduleCode ⟨g, scalars⟩ operations options)).Nodup ↔
      (operations.map (·.name)).Nodup ∧ ∀ o ∈ operations, g.contains o.name = true →
        ¬g.IsGenerated (o.name ++ "Operation") ∧
          ∀ o' ∈ operations, o'.name = o.name ++ "Operation" → g.contains o'.name = true := by
  rw [typeNames_moduleCode _ _ hoperations, List.nodup_append, handlerNames_nodup_iff]
  have happart : (∀ name ∈ (generatedTypes g).map (·.name),
      ∀ other ∈ operations.map (handlerName g), name ≠ other) ↔
      ∀ o ∈ operations, ¬g.IsGenerated (handlerName g o) := by
    constructor
    · intro hall o ho hgenerated
      exact hall _ ((mem_generatedNames hg).2 hgenerated) _ (List.mem_map_of_mem ho) rfl
    · intro hall name hname other hother heq
      obtain ⟨o, ho, rfl⟩ := List.mem_map.1 hother
      exact hall o ho ((mem_generatedNames hg).1 (heq ▸ hname))
  rw [happart]
  constructor
  · rintro ⟨-, ⟨hnames, hcross⟩, htypes⟩
    refine ⟨hnames, fun o ho hcontains => ⟨fun hgenerated => ?_, fun o' ho' hname => ?_⟩⟩
    · exact htypes o ho (handlerName_isGenerated.2 ⟨hcontains, hgenerated⟩)
    · by_contra hnot
      exact hcross o ho o' ho' ⟨hcontains, hname, hnot⟩
  · rintro ⟨hnames, hall⟩
    refine ⟨generatedNames_nodup hg, ⟨hnames, fun o ho o' ho' hcross => ?_⟩, fun o ho hgenerated => ?_⟩
    · exact hcross.2.2 ((hall o ho hcross.1).2 o' ho' hcross.2.1)
    · obtain ⟨hcontains, hlonger⟩ := handlerName_isGenerated.1 hgenerated
      exact (hall o ho hcontains).1 hlonger

end

theorem compile_eq_ok_iff {introspection : String} {documents : List String}
    {scalars : Registry} {options : Options} {code : String} :
    compile introspection documents scalars options = .ok code ↔
      ∃ graph operations, TypeGraph.parse introspection = .ok graph ∧
        bindAll graph 0 documents = .ok operations ∧
        checkScalars graph scalars = .ok () ∧ generate graph operations scalars options = code := by
  simp only [compile, Except.bind_eq_ok, Except.mapError_eq_ok]
  constructor
  · rintro ⟨graph, hparse, operations, hbind, ⟨⟩, hcheck, hcode⟩
    exact ⟨graph, operations, hparse, hbind, hcheck, Except.ok.inj hcode⟩
  · rintro ⟨graph, operations, hparse, hbind, hcheck, rfl⟩
    exact ⟨graph, hparse, operations, hbind, (), hcheck, rfl⟩

theorem filed_of_parse {introspection : String} {graph : TypeGraph}
    (hparse : TypeGraph.parse introspection = .ok graph) :
    graph.Filed := by
  obtain ⟨schema, -, hbuild⟩ := Except.bind_eq_ok.1 hparse
  exact TypeGraph.filed_of_build hbuild

/-- **Items of a compiled module.** What is generated from a schema and documents is the text
of a module whose types are distinct just if the operations of all documents are and no
handler's longer name is taken. -/
theorem typeNames_nodup_iff {introspection : String} {documents : List String}
    {scalars : Registry} {options : Options}
    {code : String} (hcompile : compile introspection documents scalars options = .ok code)
    (hoperations : options.operations = true) :
    ∃ graph operations, TypeGraph.parse introspection = .ok graph ∧
      bindAll graph 0 documents = .ok operations ∧
      code = renderAll 0 (moduleCode ⟨graph, scalars⟩ operations options) ∧
      ((typeNames (moduleCode ⟨graph, scalars⟩ operations options)).Nodup ↔
        (operations.map (·.name)).Nodup ∧ ∀ o ∈ operations, graph.contains o.name = true →
          ¬graph.IsGenerated (o.name ++ "Operation") ∧
            ∀ o' ∈ operations, o'.name = o.name ++ "Operation" → graph.contains o'.name = true) := by
  obtain ⟨graph, operations, hparse, hbind, -, rfl⟩ := compile_eq_ok_iff.1 hcompile
  exact ⟨graph, operations, hparse, hbind, rfl,
    moduleNames_nodup_iff (filed_of_parse hparse) scalars operations hoperations⟩

section Sample

open Introspection (Declaration)

/-- A schema in which a type is called like the handler of an operation that is called like another type. -/
def sizeText : String :=
  "\x7b\"__schema\": \x7b\"types\": [\x7b\"kind\": \"OBJECT\", \"name\": \"Query\", \"fields\": " ++
    "[\x7b\"name\": \"size\", \"type\": \x7b\"kind\": \"SCALAR\", \"name\": \"Int\"\x7d\x7d]\x7d, " ++
    "\x7b\"kind\": \"ENUM\", \"name\": \"Feed\", \"enumValues\": [\x7b\"name\": \"A\"\x7d]\x7d, " ++
    "\x7b\"kind\": \"ENUM\", \"name\": \"FeedOperation\", \"enumValues\": [\x7b\"name\": \"A\"\x7d]\x7d]\x7d\x7d"

def sizeSchema : Introspection.Schema :=
  let enum (name : String) : Declaration :=
    { Declaration.bare .enum name with enumValues := some [⟨"A", none, false⟩] }
  ⟨none, none, none,
    [{ Declaration.bare .object "Query" with
        fields := some [⟨"size", none, [], .mk .scalar (some "Int") none, false, none⟩] },
      enum "Feed", enum "FeedOperation"]⟩

def sizeGraph : TypeGraph :=
  let simple (kind : TypeKind) (members : List EnumMember) (name : String) : String × TypeDefinition :=
    (name, ⟨name, kind, none, .empty, [], [], members⟩)
  let size : FieldDefinition := ⟨"size", "size", .named true "Int", false, none, false⟩
  let declared := [("Query", ⟨"Query", .object, none, ⟨[("size", size)]⟩, [], [], []⟩),
    simple .enum [⟨"A", none, false⟩] "Feed", simple .enum [⟨"A", none, false⟩] "FeedOperation"]
  ⟨⟨declared ++ builtinScalars.map (simple .scalar [])⟩, "Query", none, none⟩

theorem toList_append_eq {s t : String} {cs ds : List Char} (hs : s.toList = cs) (ht : t.toList = ds) :
    (s ++ t).toList = cs ++ ds := by
  rw [String.toList_append, hs, ht]

set_option maxRecDepth 4000 in
theorem parse_sizeText : TypeGraph.parse sizeText = .ok sizeGraph := by
  -- the kernel would decode the bytes of each piece of the text; its characters are given instead
  have hchars : sizeText.toList = _ :=
    toList_append_eq (toList_append_eq (toList_append_eq String.toList_ofList
    String.toList_ofList) String.toList_ofList) String.toList_ofList
  have hread : Introspection.parse sizeText = .ok sizeSchema := by
    rw [Introspection.parse, Json.parse?, Json.read?, hchars]
    cbv
  rw [TypeGraph.parse, hread]
  rfl

def sizeQuery (name : String) : String := "query " ++ name ++ " \x7b size \x7d"

def sizeOperation (name : String) : Operation where
  name := name
  kind := .query
  rootType := "Query"
  selection := .mk "Query" [("size", .mk "size" "size" none)] false []
  variableDefinitions := []
  source := sizeQuery name

theorem bind_sizeFeed : bind sizeGraph (sizeQuery "Feed") = .ok [sizeOperation "Feed"] := by cbv

theorem bind_sizeCount : bind sizeGraph (sizeQuery "Count") = .ok [sizeOperation "Count"] := by cbv

/-- What is generated for the schema and operations that bind one by one. -/
theorem compile_sizeText {documents : List String} {operations : List Operation}
    (hbind : bindAll sizeGraph 0 documents = .ok operations) :
    compile sizeText documents .standard .default = .ok (generate sizeGraph operations .standard .default) :=
  compile_eq_ok_iff.2 ⟨sizeGraph, operations, parse_sizeText, hbind, rfl, rfl⟩

theorem bindAll_sizeCount : bindAll sizeGraph 0 [sizeQuery "Count"] = .ok [sizeOperation "Count"] := by
  simp only [bindAll, bind_sizeCount]
  rfl

theorem typeNames_nodup_sizeCount :
    compile sizeText [sizeQuery "Count"] .standard .default =
        .ok (generate sizeGraph [sizeOperation "Count"] .standard .default) ∧
      (typeNames (moduleCode ⟨sizeGraph, .standard⟩ [sizeOperation "Count"] .default)).Nodup := by
  have hcompile := compile_sizeText bindAll_sizeCount
  refine ⟨hcompile, ?_⟩
  obtain ⟨graph, operations, hparse, hbind, -, hiff⟩ := typeNames_nodup_iff hcompile rfl
  obtain rfl := Except.ok.inj (hparse.symm.trans parse_sizeText)
  obtain rfl := Except.ok.inj (hbind.symm.trans bindAll_sizeCount)
  refine hiff.2 ⟨List.nodup_singleton _, fun o ho hcontains => ?_⟩
  obtain rfl := List.mem_singleton.1 ho
  exact absurd hcontains (by decide)

/-- Types need not be distinct: the longer name of a handler may be that of a type, and two documents
may each have an operation of one name. -/
theorem not_typeNames_nodup :
    (∃ operations, bindAll sizeGraph 0 [sizeQuery "Feed"] = .ok operations ∧
      compile sizeText [sizeQuery "Feed"] .standard .default =
        .ok (generate sizeGraph operations .standard .default) ∧
      ¬(typeNames (moduleCode ⟨sizeGraph, .standard⟩ operations .default)).Nodup) ∧
    ∃ operations, bindAll sizeGraph 0 [sizeQuery "Count", sizeQuery "Count"] = .ok operations ∧
      compile sizeText [sizeQuery "Count", sizeQuery "Count"] .standard .default =
        .ok (generate sizeGraph operations .standard .default) ∧
      ¬(typeNames (moduleCode ⟨sizeGraph, .standard⟩ operations .default)).Nodup := by
  constructor
  · have hbind : bindAll sizeGraph 0 [sizeQuery "Feed"] = .ok [sizeOperation "Feed"] := by
      simp only [bindAll, bind_sizeFeed]
      rfl
    exact ⟨_, hbind, compile_sizeText hbind, by decide⟩
  · have hbind : bindAll sizeGraph 0 [sizeQuery "Count", sizeQuery "Count"] =
        .ok [sizeOperation "Count", sizeOperation "Count"] := by
      simp only [bindAll, bind_sizeCount]
      rfl
    exact ⟨_, hbind, compile_sizeText hbind, by decide⟩

end Sample

end Bindings

end GraphClient
