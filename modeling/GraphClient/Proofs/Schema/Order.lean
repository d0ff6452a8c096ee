import GraphClient.Proofs.Schema.Closed
import Mathlib.Data.List.Perm.Basic

/-! Schemas in another order. Which schemas are accepted, and what graph they give, does not depend on the
order of their types (`build_perm`). Declaring is told without an order: every declaration has a name, none
is of a wrapper kind, and no name is seen twice (`Declarable`); what is then known of the types is gathered
from the declarations one by one (`collect`). Resolving only asks for what is known under a name. -/

namespace GraphClient

namespace Schema

open Introspection (Declaration Reference)

/-- The name that a declaration makes known; a type of introspection itself makes none known. -/
def visible? (t : Declaration) : Option String :=
  t.name.filter fun name => !"__".toList.isPrefixOf name.toList

/-- What a declaration says of an output type. -/
def output? (t : Declaration) : Option (String × TypeKind × Declaration) :=
  (visible? t).bind fun name => (Declared.outputKind? name t.kind).map fun kind => (name, kind, t)

/-- The name of an input object. -/
def input? (t : Declaration) : Option String := if t.kind = .inputObject then visible? t else none

/-- What is known of the types of a schema, each declaration taken for itself. -/
def collect (types : List Declaration) : Declared := ⟨⟨types.filterMap output?⟩, types.filterMap input?⟩

/-- That declarations can be told apart, and that each of them declares something. -/
structure Declarable (types : List Declaration) : Prop where
  named : ∀ t ∈ types, ∃ name, t.name = some name ∧ (IsMeta name ∨ t.kind ≠ .list ∧ t.kind ≠ .nonNull)
  nodup : (types.filterMap visible?).Nodup

theorem filterMap_concat {α β : Type} (f : α → Option β) (items : List α) (a : α) :
    (items ++ [a]).filterMap f = items.filterMap f ++ (f a).toList := by
  rw [List.filterMap_append]
  cases h : f a <;> simp [h]

theorem visible?_eq_some {t : Declaration} {name : String} :
    visible? t = some name ↔ t.name = some name ∧ ¬IsMeta name := by
  simp [visible?, Option.filter_eq_some_iff, IsMeta, ← List.isPrefixOf_iff_prefix]

theorem mem_names_collect {types : List Declaration} {name : String} :
    name ∈ (collect types).types.names ↔
      ∃ t ∈ types, visible? t = some name ∧ (Declared.outputKind? name t.kind).isSome := by
  simp only [Table.names, collect, output?, List.mem_map, List.mem_filterMap, Option.bind_eq_some_iff,
    Option.map_eq_some_iff, Option.isSome_iff_exists]
  constructor
  · rintro ⟨e, ⟨t, ht, other, hother, kind, hkind, rfl⟩, rfl⟩
    exact ⟨t, ht, hother, kind, hkind⟩
  · rintro ⟨t, ht, hname, kind, hkind⟩
    exact ⟨(name, kind, t), ⟨t, ht, name, hname, kind, hkind, rfl⟩, rfl⟩

theorem mem_inputs_collect {types : List Declaration} {name : String} :
    name ∈ (collect types).inputs ↔ ∃ t ∈ types, visible? t = some name ∧ t.kind = .inputObject := by
  simp [collect, input?, List.mem_filterMap, and_comm]

/-- A name is known, as an output type or as an input object, exactly if a declaration makes it known. -/
theorem Declarable.known_iff {types : List Declaration} (htypes : Declarable types) {name : String} :
    ((collect types).contains name || (collect types).inputs.contains name) = true ↔
      name ∈ types.filterMap visible? := by
  rw [Bool.or_eq_true, Declared.contains, Table.contains_iff, mem_names_collect, List.contains_iff_mem,
    mem_inputs_collect, List.mem_filterMap]
  constructor
  · rintro (⟨t, ht, hname, -⟩ | ⟨t, ht, hname, -⟩) <;> exact ⟨t, ht, hname⟩
  · rintro ⟨t, ht, hname⟩
    obtain ⟨hnamed, hvisible⟩ := visible?_eq_some.1 hname
    obtain ⟨other, hother, hkind⟩ := htypes.named t ht
    obtain rfl : name = other := Option.some.inj (hnamed.symm.trans hother)
    obtain ⟨hlist, hnonNull⟩ := hkind.resolve_left hvisible
    cases hkind : t.kind
    case inputObject => exact .inr ⟨t, ht, hname, hkind⟩
    case list => exact absurd hkind hlist
    case nonNull => exact absurd hkind hnonNull
    all_goals exact .inl ⟨t, ht, hname, by rw [hkind]; rfl⟩

theorem declarable_concat {types : List Declaration} {t : Declaration} :
    Declarable (types ++ [t]) ↔ Declarable types ∧
      (∃ name, t.name = some name ∧ (IsMeta name ∨ t.kind ≠ .list ∧ t.kind ≠ .nonNull)) ∧
      ∀ name, visible? t = some name → name ∉ types.filterMap visible? := by
  have hnodup : ((types ++ [t]).filterMap visible?).Nodup ↔ (types.filterMap visible?).Nodup ∧
      ∀ name, visible? t = some name → name ∉ types.filterMap visible? := by
    rw [filterMap_concat, List.nodup_append_comm]
    cases visible? t <;> simp [and_comm]
  constructor
  · rintro ⟨hnamed, hall⟩
    exact ⟨⟨fun t' ht' => hnamed t' (List.mem_append_left _ ht'), (hnodup.1 hall).1⟩,
      hnamed t (List.mem_append_right _ (List.mem_singleton_self t)), (hnodup.1 hall).2⟩
  · rintro ⟨htypes, hlast, hnew⟩
    refine ⟨fun t' ht' => ?_, hnodup.2 ⟨htypes.nodup, hnew⟩⟩
    rcases List.mem_append.1 ht' with ht' | ht'
    · exact htypes.named t' ht'
    · exact List.mem_singleton.1 ht' ▸ hlast

theorem collect_concat (types : List Declaration) (t : Declaration) : collect (types ++ [t]) =
    ⟨⟨(collect types).types.entries ++ (output? t).toList⟩, (collect types).inputs ++ (input? t).toList⟩ := by
  rw [collect, filterMap_concat, filterMap_concat, collect]

/-- A further declaration is taken exactly if it goes with the earlier ones. -/
theorem add_collect_eq_ok_iff {types : List Declaration} (htypes : Declarable types)
    {t : Declaration} {d : Declared} :
    (collect types).add t = .ok d ↔ Declarable (types ++ [t]) ∧ d = collect (types ++ [t]) := by
  rw [declarable_concat, and_iff_right htypes, collect_concat]
  cases hname : t.name with
  | none => simp [Declared.add, hname]
  | some name =>
      simp only [Declared.add, hname, Option.some.injEq, exists_eq_left']
      by_cases hmeta : IsMeta name
      · have hhidden : visible? t = none := by
          refine Option.eq_none_iff_forall_ne_some.2 fun other hother => ?_
          obtain ⟨hother, hvisible⟩ := visible?_eq_some.1 hother
          rw [hname, Option.some.injEq] at hother
          exact hvisible (hother ▸ hmeta)
        rw [if_pos (List.isPrefixOf_iff_prefix.2 hmeta)]
        simp [hhidden, hmeta, output?, input?, eq_comm]
      · have hvisible : visible? t = some name := visible?_eq_some.2 ⟨hname, hmeta⟩
        rw [if_neg fun h => hmeta (List.isPrefixOf_iff_prefix.1 h)]
        by_cases hknown : name ∈ types.filterMap visible?
        · rw [if_pos (htypes.known_iff.2 hknown)]
          constructor
          · intro h
            cases h
          · rintro ⟨⟨-, hnew⟩, -⟩
            exact absurd hknown (hnew name hvisible)
        · have hnew : name ∉ (collect types).types.names := fun hmem =>
            hknown (htypes.known_iff.1 (by rw [Declared.contains, Table.contains_iff.2 hmem]; rfl))
          have hfresh : ∀ other, visible? t = some other → other ∉ types.filterMap visible? := by
            rw [hvisible]
            rintro other ⟨⟩
            exact hknown
          rw [if_neg (mt htypes.known_iff.1 hknown), and_iff_left hfresh, or_iff_right hmeta]
          cases hkind : t.kind <;>
            simp [Table.insert_of_notMem hnew, hvisible, hkind, output?, input?,
              Declared.outputKind?, eq_comm]

/-- Declarations are taken exactly if they can be, and then each is known by itself. -/
theorem foldlM_add_eq_ok_iff {types : List Declaration} {d : Declared} :
    types.foldlM Declared.add .empty = .ok d ↔ Declarable types ∧ d = collect types := by
  induction types using List.reverseRecOn generalizing d with
  | nil =>
      constructor
      · intro h
        cases h
        exact ⟨⟨fun _ h => absurd h List.not_mem_nil, List.nodup_nil⟩, rfl⟩
      · rintro ⟨-, rfl⟩
        rfl
  | append_singleton types t ih =>
      rw [List.foldlM_append, Except.bind_eq_ok]
      have hlast : ∀ {before : Declared}, [t].foldlM Declared.add before = before.add t := by
        intro before
        rw [List.foldlM_cons]
        cases before.add t <;> rfl
      constructor
      · rintro ⟨before, hbefore, hadd⟩
        obtain ⟨htypes, rfl⟩ := ih.1 hbefore
        exact (add_collect_eq_ok_iff htypes).1 (hlast ▸ hadd)
      · rintro ⟨hall, rfl⟩
        have htypes := (declarable_concat.1 hall).1
        exact ⟨_, ih.2 ⟨htypes, rfl⟩, hlast ▸ (add_collect_eq_ok_iff htypes).2 ⟨hall, rfl⟩⟩

theorem declare_eq_ok_iff {schema : Introspection.Schema} {d : Declared} : declare schema = .ok d ↔
    Declarable schema.types ∧ d = builtinScalars.foldl Declared.addBuiltin (collect schema.types) := by
  rw [declare, Except.map_eq_ok]
  constructor
  · rintro ⟨before, hbefore, rfl⟩
    obtain ⟨htypes, rfl⟩ := foldlM_add_eq_ok_iff.1 hbefore
    exact ⟨htypes, rfl⟩
  · rintro ⟨htypes, rfl⟩
    exact ⟨_, foldlM_add_eq_ok_iff.2 ⟨htypes, rfl⟩, rfl⟩

theorem Declarable.perm {types types' : List Declaration} (htypes : Declarable types)
    (hperm : types.Perm types') :
    Declarable types' :=
  ⟨fun t ht => htypes.named t (hperm.mem_iff.2 ht), (hperm.filterMap visible?).nodup_iff.1 htypes.nodup⟩

/-- That two collections hold the same, in whatever order. -/
structure Declared.Alike (d d' : Declared) : Prop where
  types : d.types.entries.Perm d'.types.entries
  inputs : d.inputs.Perm d'.inputs

namespace Declared.Alike

variable {d d' : Declared}

theorem contains (halike : d.Alike d') (name : String) : d.contains name = d'.contains name := by
  rw [Bool.eq_iff_iff, Declared.contains, Table.contains_iff, Declared.contains, Table.contains_iff]
  exact (halike.types.map _).mem_iff

theorem addBuiltin (halike : d.Alike d') (name : String) :
    (d.addBuiltin name).Alike (d'.addBuiltin name) := by
  by_cases hmem : d.contains name = true
  · rw [Declared.addBuiltin, if_pos hmem, Declared.addBuiltin, if_pos (halike.contains name ▸ hmem)]
    exact halike
  · have hmem' : ¬d'.contains name = true := halike.contains name ▸ hmem
    rw [Declared.addBuiltin, if_neg hmem, Declared.addBuiltin, if_neg hmem',
      Table.insert_of_notMem (mt Table.contains_iff.2 hmem),
      Table.insert_of_notMem (mt Table.contains_iff.2 hmem')]
    exact ⟨halike.types.append_right _, halike.inputs⟩

theorem foldl_addBuiltin (halike : d.Alike d') (names : List String) :
    (names.foldl Declared.addBuiltin d).Alike (names.foldl Declared.addBuiltin d') := by
  induction names generalizing d d' with
  | nil => exact halike
  | cons name rest ih => exact ih (halike.addBuiltin name)

end Declared.Alike

/-- The types of a schema are declared in any order, and then the same is known of them. -/
theorem exists_declare_perm {schema : Introspection.Schema} {types' : List Declaration}
    (hperm : schema.types.Perm types') {d : Declared} (hdeclare : declare schema = .ok d) :
    ∃ d', declare { schema with types := types' } = .ok d' ∧ d.Alike d' := by
  obtain ⟨htypes, rfl⟩ := declare_eq_ok_iff.1 hdeclare
  have halike : (collect schema.types).Alike (collect types') :=
    ⟨hperm.filterMap output?, hperm.filterMap input?⟩
  exact ⟨_, declare_eq_ok_iff.2 ⟨htypes.perm hperm, rfl⟩, halike.foldl_addBuiltin _⟩

/-- That two collections give the same answer to whatever is looked up in them. -/
structure Declared.Agrees (d d' : Declared) : Prop where
  kind? : ∀ name, d.kind? name = d'.kind? name
  inputs : ∀ name, d.inputs.contains name = d'.inputs.contains name

theorem Declared.Alike.agrees {d d' : Declared} (halike : d.Alike d') (hnodup : d.types.names.Nodup) :
    d.Agrees d' where
  kind? name := by rw [Declared.kind?, Declared.kind?, Table.get?_perm halike.types hnodup]
  inputs name := by
    rw [Bool.eq_iff_iff, List.contains_iff_mem, List.contains_iff_mem]
    exact halike.inputs.mem_iff

namespace Declared.Agrees

variable {d d' : Declared}

theorem contains (h : d.Agrees d') (name : String) : d.contains name = d'.contains name := by
  have hkind := congrArg Option.isSome (h.kind? name)
  rwa [Declared.kind?, Declared.kind?, Option.isSome_map, Option.isSome_map] at hkind

theorem resolveReference (h : d.Agrees d') (location : String) (r : Reference) :
    resolveReference d location r = resolveReference d' location r := by
  fun_induction Schema.resolveReference d location r with
  | case1 name inner ih => rw [Schema.resolveReference, ih]
  | case2 name inner ih => rw [Schema.resolveReference, ih]
  | case3 => rfl
  | case4 => rfl
  | case5 =>
      rename_i hinput
      rw [Schema.resolveReference, ← h.inputs, if_pos hinput] <;> assumption
  | case6 =>
      rename_i hinput hdeclared
      rw [Schema.resolveReference, ← h.inputs, if_neg hinput, ← h.contains, if_pos hdeclared] <;> assumption
  | case7 =>
      rename_i hinput hdeclared
      rw [Schema.resolveReference, ← h.inputs, if_neg hinput, ← h.contains, if_neg hdeclared] <;> assumption

theorem resolveFields (h : d.Agrees d') (typeName : String) (t : Declaration) :
    resolveFields d typeName t = resolveFields d' typeName t := by
  have hfield : resolveField d typeName = resolveField d' typeName := by
    funext f
    rw [resolveField, h.resolveReference, resolveField]
  rw [Schema.resolveFields, hfield, Schema.resolveFields]

theorem resolveNames (h : d.Agrees d') (typeName : String) (rs : Option (List Reference)) :
    resolveNames d typeName rs = resolveNames d' typeName rs := by
  have hname : resolveName d typeName = resolveName d' typeName := by
    funext r
    rw [resolveName, h.contains, resolveName]
  rw [Schema.resolveNames, hname, Schema.resolveNames]

theorem resolvePossibleTypes (h : d.Agrees d') (typeName : String) (t : Declaration) :
    resolvePossibleTypes d typeName t = resolvePossibleTypes d' typeName t := by
  rw [Schema.resolvePossibleTypes, h.resolveNames, funext h.kind?, Schema.resolvePossibleTypes]

theorem resolveType (h : d.Agrees d') (name : String) (kind : TypeKind) (t : Declaration) :
    resolveType d name kind t = resolveType d' name kind t := by
  cases kind <;> simp only [Schema.resolveType, h.resolveFields, h.resolveNames, h.resolvePossibleTypes]

theorem resolveRoot (h : d.Agrees d') (slot name : String) :
    resolveRoot d slot name = resolveRoot d' slot name := by
  rw [Schema.resolveRoot, h.kind?, Schema.resolveRoot]

theorem resolveOptionalRoot (h : d.Agrees d') (slot : String) (name : Option String) :
    resolveOptionalRoot d slot name = resolveOptionalRoot d' slot name := by
  cases name with
  | none => rfl
  | some name => rw [Schema.resolveOptionalRoot, h.resolveRoot, Schema.resolveOptionalRoot]

end Declared.Agrees

/-- Each declaration resolves by itself, so that it does not matter which of them is resolved first. -/
theorem exists_resolveTypes_perm {d d' : Declared} (halike : d.Alike d') (hagrees : d.Agrees d')
    {types : Table TypeDefinition} (hresolve : resolveTypes d = .ok types) :
    ∃ types', resolveTypes d' = .ok types' ∧ types.entries.Perm types'.entries := by
  obtain ⟨entries, hmap, rfl⟩ := Except.map_eq_ok.1 hresolve
  obtain ⟨entries', hall, hentries⟩ := List.perm_comp_forall₂ halike.types.symm (forall₂_of_mapM hmap)
  simp only [hagrees.resolveType] at hall
  exact ⟨⟨entries'⟩, Except.map_eq_ok.2 ⟨_, mapM_of_forall₂ hall, rfl⟩, hentries.symm⟩

end Schema

/-- That two graphs have the same types under the same names, and the same root types. -/
structure TypeGraph.Alike (g g' : TypeGraph) : Prop where
  names : g.types.names.Perm g'.types.names
  get? : ∀ name, g.get? name = g'.get? name
  query : g.queryType = g'.queryType
  mutation : g.mutationType = g'.mutationType
  subscription : g.subscriptionType = g'.subscriptionType

open Schema

/-- A schema that is accepted is accepted in any order. -/
theorem TypeGraph.exists_build_perm {schema : Introspection.Schema} {types' : List Introspection.Declaration}
    (hperm : schema.types.Perm types') {g : TypeGraph} (hbuild : TypeGraph.build schema = .ok g) :
    ∃ g', TypeGraph.build { schema with types := types' } = .ok g' ∧ g.Alike g' := by
  obtain ⟨d, hdeclare, htypes, hquery, hmutation, hsubscription⟩ := TypeGraph.build_eq_ok.1 hbuild
  obtain ⟨d', hdeclare', halike⟩ := exists_declare_perm hperm hdeclare
  have hagrees := halike.agrees (names_declare hdeclare)
  obtain ⟨types', htypes', hentries⟩ := exists_resolveTypes_perm halike hagrees htypes
  rw [hagrees.resolveRoot] at hquery
  rw [hagrees.resolveOptionalRoot] at hmutation hsubscription
  refine ⟨{ g with types := types' }, TypeGraph.build_eq_ok.2 ⟨d', hdeclare', htypes', hquery, hmutation,
    hsubscription⟩, ?_⟩
  have hnodup : g.types.names.Nodup := names_of_resolveTypes htypes ▸ names_declare hdeclare
  exact ⟨hentries.map _, Table.get?_perm hentries hnodup, rfl, rfl, rfl⟩

/-- **The order of the types makes no difference**: a schema is accepted exactly if it is
accepted with its types in another order, and the two graphs have the same types under the same
names, and the same root types. -/
theorem TypeGraph.build_perm {schema : Introspection.Schema} {types' : List Introspection.Declaration}
    (hperm : schema.types.Perm types') :
    ((∃ g, TypeGraph.build schema = .ok g) ↔ ∃ g', TypeGraph.build { schema with types := types' } = .ok g') ∧
      ∀ g g', TypeGraph.build schema = .ok g → TypeGraph.build { schema with types := types' } = .ok g' →
        g.Alike g' := by
  refine ⟨⟨?_, ?_⟩, ?_⟩
  · rintro ⟨g, hbuild⟩
    obtain ⟨g', hbuild', -⟩ := exists_build_perm hperm hbuild
    exact ⟨g', hbuild'⟩
  · rintro ⟨g', hbuild'⟩
    have hback : { schema with types := types' }.types.Perm schema.types := hperm.symm
    obtain ⟨g, hbuild, -⟩ := exists_build_perm hback hbuild'
    exact ⟨g, hbuild⟩
  · intro g g' hbuild hbuild'
    obtain ⟨g'', hbuild'', halike⟩ := exists_build_perm hperm hbuild
    rw [hbuild', Except.ok.injEq] at hbuild''
    exact hbuild'' ▸ halike

section Sample

/-- Items and nodes behind the types that nothing refers to: the same graph with its names in another
order. -/
theorem alike_nodeSchema_reversed : ∃ g g', TypeGraph.build nodeSchema = .ok g ∧
    TypeGraph.build { nodeSchema with types := nodeSchema.types.reverse } = .ok g' ∧
    g.types.names ≠ g'.types.names ∧ g.Alike g' := by
  have hperm : nodeSchema.types.Perm nodeSchema.types.reverse := (List.reverse_perm _).symm
  have hforward : ∃ g, TypeGraph.build nodeSchema = .ok g ∧ g.types.names.head? = some "Query" :=
    ⟨_, rfl, rfl⟩
  obtain ⟨g, hbuild, hhead⟩ := hforward
  have hbackward : ∃ g', TypeGraph.build { nodeSchema with types := nodeSchema.types.reverse } = .ok g' ∧
      g'.types.names.head? = some "Item" := ⟨_, rfl, rfl⟩
  obtain ⟨g', hbuild', hhead'⟩ := hbackward
  refine ⟨g, g', hbuild, hbuild', fun hnames => ?_, (TypeGraph.build_perm hperm).2 g g' hbuild hbuild'⟩
  rw [hnames, hhead'] at hhead
  exact absurd hhead (by decide)

end Sample

end GraphClient
