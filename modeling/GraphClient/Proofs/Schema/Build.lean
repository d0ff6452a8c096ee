import GraphClient.Proofs.Except
import GraphClient.Proofs.Table
import GraphClient.Schema.Build

/-! Built graphs. Every type is found under its own name, and every field of a type under its wire name;
a field tells objects apart exactly if it is called `id` and is of the type `ID`. -/

namespace GraphClient

namespace Schema

/-- That a name is one of introspection itself. -/
def IsMeta (name : String) : Prop := "__".toList <+: name.toList

/-- What a declaration under a name does: it is left out, or it adds a type or the name of an input object. -/
inductive Adds (d : Declared) (t : Introspection.Declaration) (name : String) : Declared → Prop
  | hidden (hmeta : IsMeta name) : Adds d t name d
  | type {kind : TypeKind} (hvisible : ¬IsMeta name) (hkind : Declared.outputKind? name t.kind = some kind) :
      Adds d t name { d with types := d.types.insert name (kind, t) }
  | input (hvisible : ¬IsMeta name) (hkind : t.kind = .inputObject) :
      Adds d t name { d with inputs := d.inputs ++ [name] }

theorem adds_of_add {d d' : Declared} {t : Introspection.Declaration} (hadd : d.add t = .ok d') :
    ∃ name, t.name = some name ∧ Adds d t name d' := by
  unfold Declared.add at hadd
  split at hadd
  · cases hadd
  · rename_i name hname
    refine ⟨name, hname, ?_⟩
    split at hadd
    · rename_i hmeta
      cases hadd
      exact .hidden (List.isPrefixOf_iff_prefix.1 hmeta)
    · rename_i hvisible
      have hvisible : ¬IsMeta name := fun hmeta => hvisible (List.isPrefixOf_iff_prefix.2 hmeta)
      split at hadd
      · cases hadd
      · split at hadd
        · rename_i hkind
          cases hadd
          exact .type hvisible hkind
        · split at hadd <;> cases hadd
          exact .input hvisible (by assumption)

theorem names_add {d d' : Declared} {t : Introspection.Declaration} (hadd : d.add t = .ok d')
    (hnodup : d.types.names.Nodup) : d'.types.names.Nodup := by
  obtain ⟨name, -, hadds⟩ := adds_of_add hadd
  cases hadds with
  | type => exact Table.names_insert_nodup hnodup _ _
  | hidden | input => exact hnodup

/-- What holds of the declarations of a schema, if it holds of no declarations, every declaration
keeps it, and so does adding a scalar of every schema. -/
theorem declare_induction {schema : Introspection.Schema} {d : Declared}
    {P : List Introspection.Declaration → Declared → Prop} (hempty : P [] .empty)
    (hadd : ∀ {done d t d'}, P done d → d.add t = .ok d' → P (done ++ [t]) d')
    (hbuiltin : ∀ {done d name}, name ∈ builtinScalars → P done d → P done (d.addBuiltin name))
    (hdeclare : declare schema = .ok d) : P schema.types d := by
  obtain ⟨d₀, hfold, rfl⟩ := Except.map_eq_ok.1 hdeclare
  have hdeclared : P schema.types d₀ := foldlM_induction hempty hadd hfold
  have hall : ∀ names ⊆ builtinScalars, ∀ {d}, P schema.types d →
      P schema.types (names.foldl Declared.addBuiltin d) := by
    intro names
    induction names with
    | nil => exact fun _ d hd => hd
    | cons name rest ih =>
        intro hsub d hd
        exact ih (fun other hother => hsub (List.mem_cons_of_mem _ hother))
          (hbuiltin (hsub List.mem_cons_self) hd)
  exact hall builtinScalars (List.Subset.refl _) hdeclared

theorem names_declare {schema : Introspection.Schema} {d : Declared} (hdeclare : declare schema = .ok d) :
    d.types.names.Nodup := by
  refine declare_induction (P := fun _ d => d.types.names.Nodup) List.nodup_nil
    (fun hd hadd => names_add hadd hd) (fun {_ d name} _ hd => ?_) hdeclare
  unfold Declared.addBuiltin
  split
  · exact hd
  · exact Table.names_insert_nodup hd _ _

/-- That the fields of a type are found under their wire names, and that it is told which of them is the
id. -/
structure Filed (t : TypeDefinition) : Prop where
  nodup : t.fields.names.Nodup
  wireName : ∀ e ∈ t.fields.entries, e.2.wireName = e.1
  isId : ∀ e ∈ t.fields.entries,
    e.2.isId = (decide (e.2.wireName = "id") && !e.2.type.isList && decide (e.2.type.typeName = "ID"))

theorem Filed.wireNames_nodup {t : TypeDefinition} (ht : Filed t) :
    (t.fields.values.map (·.wireName)).Nodup := by
  have hnames : t.fields.values.map (·.wireName) = t.fields.names := by
    rw [Table.values, Table.names, List.map_map]
    exact List.map_congr_left fun e he => ht.wireName e he
  exact hnames ▸ ht.nodup

theorem Filed.of_resolveFields {d : Declared} {name : String} {decl : Introspection.Declaration}
    {fields : Table FieldDefinition} (hfields : resolveFields d name decl = .ok fields) (t : TypeDefinition)
    (ht : t.fields = fields) : Filed t := by
  obtain ⟨list, hmap, rfl⟩ := Except.map_eq_ok.1 hfields
  have hentry : ∀ e ∈ t.fields.entries, ∃ f, e = (f.wireName, f) ∧ f.isId =
      (decide (f.wireName = "id") && !f.type.isList && decide (f.type.typeName = "ID")) := by
    intro e he
    rw [ht] at he
    obtain ⟨f, hf, rfl⟩ := List.mem_map.1 (Table.mem_of_mem_ofList he)
    obtain ⟨source, -, hsource⟩ := exists_of_mem_forall₂ (forall₂_of_mapM hmap) hf
    obtain ⟨type, -, rfl⟩ := Except.map_eq_ok.1 hsource
    exact ⟨_, rfl, rfl⟩
  refine ⟨by rw [ht]; exact Table.names_ofList_nodup _, fun e he => ?_, fun e he => ?_⟩
  · obtain ⟨f, rfl, -⟩ := hentry e he
    rfl
  · obtain ⟨f, rfl, hid⟩ := hentry e he
    exact hid

theorem Filed.of_no_fields (t : TypeDefinition) (ht : t.fields = .empty) : Filed t :=
  ⟨by rw [ht]; exact List.nodup_nil, fun e he => by rw [ht] at he; exact absurd he List.not_mem_nil,
    fun e he => by rw [ht] at he; exact absurd he List.not_mem_nil⟩

/-- A type whose objects can be told apart has a field `id` of the type `ID`. -/
theorem Filed.id_of_hasId {t : TypeDefinition} (hf : Filed t) (hid : t.hasId = true) :
    ∃ f ∈ t.fields.values, f.wireName = "id" ∧ f.type.depth = 0 ∧ f.type.typeName = "ID" := by
  obtain ⟨f, hfind⟩ := Option.isSome_iff_exists.1 hid
  have hmem := List.mem_of_find?_eq_some hfind
  have hisId : f.isId = true := List.find?_some hfind
  obtain ⟨e, he, rfl⟩ := List.mem_map.1 hmem
  rw [hf.isId e he] at hisId
  simp only [Bool.and_eq_true, Bool.not_eq_true', decide_eq_true_eq] at hisId
  refine ⟨e.2, hmem, hisId.1.1, ?_, hisId.2⟩
  cases htype : e.2.type with
  | named => rfl
  | list => rw [htype] at hisId; exact nomatch hisId.1.2

theorem kind?_of_resolvePossibleTypes {d : Declared} {name : String} {decl : Introspection.Declaration}
    {names : List String} (hresolve : resolvePossibleTypes d name decl = .ok names)
    {n : String} (hn : n ∈ names) :
    d.kind? n = some .object := by
  obtain ⟨found, -, hresolve⟩ := Except.bind_eq_ok.1 hresolve
  split at hresolve
  · cases hresolve
  · rename_i hnone
    cases hresolve
    by_contra hother
    exact List.find?_eq_none.1 hnone n hn (decide_eq_true hother)

/-- What a declaration resolves to: a type under its name and of its kind, with the fields and the
references that are looked up for that kind. -/
structure Resolves (d : Declared) (name : String) (kind : TypeKind) (decl : Introspection.Declaration)
    (t : TypeDefinition) : Prop where
  named : t.name = name
  ofKind : t.kind = kind
  fields : t.fields = .empty ∨ resolveFields d name decl = .ok t.fields
  nonempty : kind = .object → t.fields.entries ≠ []
  interfaces : t.interfaces = [] ∨ resolveNames d name decl.interfaces = .ok t.interfaces
  possible : ∀ n ∈ t.possibleTypes, d.kind? n = some .object

theorem resolves_of_resolveType {d : Declared} {name : String} {kind : TypeKind}
    {decl : Introspection.Declaration}
    {t : TypeDefinition} (hresolve : resolveType d name kind decl = .ok t) : Resolves d name kind decl t := by
  cases kind with
  | object =>
      obtain ⟨fields, hfields, hresolve⟩ := Except.bind_eq_ok.1 hresolve
      split at hresolve
      · cases hresolve
      · rename_i hnonempty
        obtain ⟨interfaces, hinterfaces, hresolve⟩ := Except.bind_eq_ok.1 hresolve
        cases hresolve
        exact ⟨rfl, rfl, .inr hfields, fun _ hempty => hnonempty (List.isEmpty_iff.2 hempty),
          .inr hinterfaces, nofun⟩
  | interface =>
      obtain ⟨fields, hfields, hresolve⟩ := Except.bind_eq_ok.1 hresolve
      obtain ⟨possible, hpossible, hresolve⟩ := Except.bind_eq_ok.1 hresolve
      cases hresolve
      exact ⟨rfl, rfl, .inr hfields, nofun, .inl rfl, fun _ => kind?_of_resolvePossibleTypes hpossible⟩
  | union =>
      obtain ⟨possible, hpossible, hresolve⟩ := Except.bind_eq_ok.1 hresolve
      cases hresolve
      exact ⟨rfl, rfl, .inl rfl, nofun, .inl rfl, fun _ => kind?_of_resolvePossibleTypes hpossible⟩
  | enum | scalar | customScalar =>
      cases hresolve
      exact ⟨rfl, rfl, .inl rfl, nofun, .inl rfl, nofun⟩

theorem Resolves.filed {d : Declared} {name : String} {kind : TypeKind} {decl : Introspection.Declaration}
    {t : TypeDefinition} (hresolves : Resolves d name kind decl t) : Filed t :=
  hresolves.fields.elim (.of_no_fields t) fun hfields => .of_resolveFields hfields t rfl

theorem kind?_of_resolveRoot {d : Declared} {slot name root : String}
    (hresolve : resolveRoot d slot name = .ok root) :
    d.kind? root = some .object := by
  unfold resolveRoot at hresolve
  split at hresolve
  · cases hresolve
    assumption
  · cases hresolve
  · cases hresolve

/-- The declarations are resolved one by one, each under its name. -/
theorem entries_of_resolveTypes {d : Declared} {types : Table TypeDefinition}
    (hresolve : resolveTypes d = .ok types) :
    List.Forall₂ (fun e e' => resolveType d e.1 e.2.1 e.2.2 = .ok e'.2 ∧
      e'.1 = e.1) d.types.entries types.entries := by
  obtain ⟨entries, hmap, rfl⟩ := Except.map_eq_ok.1 hresolve
  refine (forall₂_of_mapM hmap).imp fun e e' he => ?_
  obtain ⟨t, ht, rfl⟩ := Except.map_eq_ok.1 he
  exact ⟨ht, rfl⟩

theorem names_of_resolveTypes {d : Declared} {types : Table TypeDefinition}
    (hresolve : resolveTypes d = .ok types) :
    types.names = d.types.names := by
  refine (List.forall₂_eq_eq_eq ▸ (List.forall₂_map_left_iff.2 (List.forall₂_map_right_iff.2 ?_)) :
    d.types.names = types.names).symm
  exact (entries_of_resolveTypes hresolve).imp fun e e' he => he.2.symm

/-- A type of a graph is what its declaration resolves to. -/
theorem exists_of_get? {d : Declared} {types : Table TypeDefinition} (hresolve : resolveTypes d = .ok types)
    {name : String} {t : TypeDefinition} (hget : types.get? name = some t) :
    ∃ kind decl, (name, kind, decl) ∈ d.types.entries ∧ Resolves d name kind decl t := by
  obtain ⟨⟨other, kind, decl⟩, hmem, hresolves, rfl⟩ :=
    exists_of_mem_forall₂ (entries_of_resolveTypes hresolve) (Table.mem_of_get? hget)
  exact ⟨kind, decl, hmem, resolves_of_resolveType hresolves⟩

/-- What a declaration resolves to is filed under its name, and of the kind that was declared. -/
theorem exists_of_kind? {d : Declared} {types : Table TypeDefinition} (hnodup : d.types.names.Nodup)
    (hresolve : resolveTypes d = .ok types) {name : String} {kind : TypeKind}
    (hkind : d.kind? name = some kind) :
    ∃ t, types.get? name = some t ∧ t.kind = kind := by
  obtain ⟨⟨_, decl⟩, hget, rfl⟩ := Option.map_eq_some_iff.1 hkind
  obtain ⟨⟨other, t⟩, hmem, ht, rfl⟩ :=
    exists_right_of_mem_forall₂ (entries_of_resolveTypes hresolve) (Table.mem_of_get? hget)
  exact ⟨t, Table.get?_of_mem (names_of_resolveTypes hresolve ▸ hnodup) hmem,
    (resolves_of_resolveType ht).ofKind⟩

end Schema

/-- That the type `ID` is an enumeration. -/
def TypeGraph.HasEnumId (g : TypeGraph) : Prop := ∃ t, g.get? "ID" = some t ∧ t.kind = .enum

/-- That every type is found under its name, with its fields under theirs. -/
structure TypeGraph.Filed (g : TypeGraph) : Prop where
  nodup : g.types.names.Nodup
  name : ∀ e ∈ g.types.entries, e.2.name = e.1
  type : ∀ e ∈ g.types.entries, Schema.Filed e.2

/-- A schema is accepted if its types can be filed and resolved, and its root types found. -/
theorem TypeGraph.build_eq_ok {schema : Introspection.Schema} {g : TypeGraph} :
    TypeGraph.build schema = .ok g ↔ ∃ d, Schema.declare schema = .ok d ∧
      Schema.resolveTypes d = .ok g.types ∧
      Schema.resolveRoot d "queryType" (schema.query.getD "Query") = .ok g.queryType ∧
      Schema.resolveOptionalRoot d "mutationType" schema.mutation = .ok g.mutationType ∧
      Schema.resolveOptionalRoot d "subscriptionType" schema.subscription = .ok g.subscriptionType := by
  constructor
  · intro hbuild
    obtain ⟨d, hdeclare, hbuild⟩ := Except.bind_eq_ok.1 hbuild
    obtain ⟨types, htypes, hbuild⟩ := Except.bind_eq_ok.1 hbuild
    obtain ⟨query, hquery, hbuild⟩ := Except.bind_eq_ok.1 hbuild
    obtain ⟨mutation, hmutation, hbuild⟩ := Except.bind_eq_ok.1 hbuild
    obtain ⟨subscription, hsubscription, hbuild⟩ := Except.bind_eq_ok.1 hbuild
    cases hbuild
    exact ⟨d, hdeclare, htypes, hquery, hmutation, hsubscription⟩
  · rintro ⟨d, hdeclare, htypes, hquery, hmutation, hsubscription⟩
    refine Except.bind_eq_ok.2 ⟨d, hdeclare, Except.bind_eq_ok.2 ⟨g.types, htypes, ?_⟩⟩
    refine Except.bind_eq_ok.2 ⟨g.queryType, hquery, Except.bind_eq_ok.2 ⟨g.mutationType, hmutation, ?_⟩⟩
    exact Except.bind_eq_ok.2 ⟨g.subscriptionType, hsubscription, rfl⟩

theorem TypeGraph.declared_of_build {schema : Introspection.Schema} {g : TypeGraph}
    (hbuild : TypeGraph.build schema = .ok g) :
    ∃ d, Schema.declare schema = .ok d ∧ Schema.resolveTypes d = .ok g.types := by
  obtain ⟨d, hdeclare, htypes, -⟩ := build_eq_ok.1 hbuild
  exact ⟨d, hdeclare, htypes⟩

theorem TypeGraph.filed_of_build {schema : Introspection.Schema} {g : TypeGraph}
    (hbuild : TypeGraph.build schema = .ok g) : g.Filed := by
  obtain ⟨d, hdeclare, htypes⟩ := declared_of_build hbuild
  have hentry : ∀ e ∈ g.types.entries, e.2.name = e.1 ∧ Schema.Filed e.2 := by
    intro e he
    obtain ⟨source, -, hresolve, hname⟩ := exists_of_mem_forall₂ (Schema.entries_of_resolveTypes htypes) he
    have hresolves := Schema.resolves_of_resolveType hresolve
    exact ⟨hresolves.named.trans hname.symm, hresolves.filed⟩
  exact ⟨Schema.names_of_resolveTypes htypes ▸ Schema.names_declare hdeclare, fun e he => (hentry e he).1,
    fun e he => (hentry e he).2⟩

namespace TypeGraph.Filed

variable {g : TypeGraph}

theorem get?_name (hg : g.Filed) {t : TypeDefinition} (ht : t ∈ g.definitions) : g.get? t.name = some t := by
  obtain ⟨e, he, rfl⟩ := List.mem_map.1 ht
  rw [hg.name e he]
  exact Table.get?_of_mem hg.nodup he

theorem name_of_get? (hg : g.Filed) {name : String} {t : TypeDefinition} (hget : g.get? name = some t) :
    t.name = name := hg.name _ (Table.mem_of_get? hget)

theorem filed_of_mem (hg : g.Filed) {t : TypeDefinition} (ht : t ∈ g.definitions) : Schema.Filed t := by
  obtain ⟨e, he, rfl⟩ := List.mem_map.1 ht
  exact hg.type e he

end TypeGraph.Filed

namespace TypeGraph

/-- That a type of a graph is an object type. -/
def IsObject (g : TypeGraph) (name : String) : Prop := ∃ t, g.get? name = some t ∧ t.kind = .object

/-- That objects of a type are of one of several object types. -/
def IsAbstract (g : TypeGraph) (name : String) : Prop := ∃ t, g.get? name = some t ∧ t.kind.isAbstract = true

/-- That fields are selected on values of a type. -/
def IsComposite (g : TypeGraph) (name : String) : Prop :=
  ∃ t, g.get? name = some t ∧ t.kind.isComposite = true

theorem IsObject.not_isAbstract {g : TypeGraph} {name : String} (h : g.IsObject name) :
    ¬g.IsAbstract name := by
  rintro ⟨t, ht, habstract⟩
  obtain ⟨t', ht', hkind⟩ := h
  rw [ht] at ht'
  cases ht'
  rw [hkind] at habstract
  cases habstract

theorem IsObject.isComposite {g : TypeGraph} {name : String} (h : g.IsObject name) : g.IsComposite name := by
  obtain ⟨t, ht, hkind⟩ := h
  exact ⟨t, ht, by rw [hkind]; rfl⟩

theorem IsAbstract.isComposite {g : TypeGraph} {name : String} (h : g.IsAbstract name) :
    g.IsComposite name := by
  obtain ⟨t, ht, hkind⟩ := h
  refine ⟨t, ht, ?_⟩
  cases hk : t.kind <;> rw [hk] at hkind <;> first | rfl | cases hkind

end TypeGraph

/-- That objects are of object types: those that a type may be of, and the root types. -/
structure TypeGraph.Grounded (g : TypeGraph) : Prop where
  possible : ∀ name t, g.get? name = some t → ∀ n ∈ t.possibleTypes, g.IsObject n
  root : ∀ kind name, g.rootType? kind = some name → g.IsObject name

theorem TypeGraph.grounded_of_build {schema : Introspection.Schema} {g : TypeGraph}
    (hbuild : TypeGraph.build schema = .ok g) : g.Grounded := by
  obtain ⟨d, hdeclare, htypes, hquery, hmutation, hsubscription⟩ := TypeGraph.build_eq_ok.1 hbuild
  have hobject : ∀ {name}, d.kind? name = some .object → g.IsObject name :=
    fun h => Schema.exists_of_kind? (Schema.names_declare hdeclare) htypes h
  have hoptional : ∀ {slot : String} {wanted root : Option String} {name : String},
      Schema.resolveOptionalRoot d slot wanted = .ok root → root = some name → g.IsObject name := by
    rintro slot wanted root name hresolve rfl
    cases wanted with
    | none => cases hresolve
    | some wanted =>
        obtain ⟨found, hfound, heq⟩ := Except.map_eq_ok.1 hresolve
        cases heq
        exact hobject (Schema.kind?_of_resolveRoot hfound)
  constructor
  · intro name t hget n hn
    obtain ⟨kind, decl, -, hresolves⟩ := Schema.exists_of_get? htypes hget
    exact hobject (hresolves.possible n hn)
  · intro kind name hroot
    cases kind with
    | query =>
        cases hroot
        exact hobject (Schema.kind?_of_resolveRoot hquery)
    | mutation => exact hoptional hmutation hroot
    | subscription => exact hoptional hsubscription hroot

end GraphClient
