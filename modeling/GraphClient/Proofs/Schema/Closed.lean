import GraphClient.Proofs.Schema.Build

/-! Closed graphs. Whatever a built graph refers to is one of its types, its entries are filed under
the names they have, and what has to be an object type is one (`closed_of_build`). So nothing that
looks a type up by a name that it found in the graph has to care for a missing one. What a type is
called says little of what it is: a schema may declare any output type under the name of a scalar that
every schema has, and the graph then holds that one. -/

namespace GraphClient

namespace Schema

open Introspection (Declaration Reference)

/-- Where the declared types come from: each is the output type of a declaration or a scalar of every
schema, none has a name of introspection, and the names of input objects are remembered. -/
structure Declared.Sourced (declarations : List Declaration) (d : Declared) : Prop where
  type : ∀ {name kind decl}, (name, kind, decl) ∈ d.types.entries →
    (∃ t ∈ declarations, t.name = some name ∧ outputKind? name t.kind = some kind) ∨
      (name ∈ builtinScalars ∧ kind = .scalar)
  visible : ∀ {name}, name ∈ d.types.names → ¬IsMeta name
  input : ∀ {t name}, t ∈ declarations → t.kind = .inputObject → t.name = some name →
    IsMeta name ∨ name ∈ d.inputs

namespace Declared.Sourced

variable {declarations : List Declaration} {d d' : Declared} {t : Declaration}

theorem empty : Sourced [] .empty := ⟨nofun, nofun, nofun⟩

theorem add (hd : d.Sourced declarations) (hadd : d.add t = .ok d') : d'.Sourced (declarations ++ [t]) := by
  obtain ⟨name, hname, hadds⟩ := adds_of_add hadd
  have hearlier : ∀ {other kind decl}, (other, kind, decl) ∈ d.types.entries →
      (∃ t' ∈ declarations ++ [t], t'.name = some other ∧ outputKind? other t'.kind = some kind) ∨
        (other ∈ builtinScalars ∧ kind = .scalar) := fun hmem =>
    (hd.type hmem).imp_left fun ⟨t', ht', h⟩ => ⟨t', List.mem_append_left _ ht', h⟩
  cases hadds with
  | hidden hmeta =>
      refine ⟨hearlier, hd.visible, fun {t' other} ht' hkind hother => ?_⟩
      rcases List.mem_append.1 ht' with ht' | ht'
      · exact hd.input ht' hkind hother
      · rw [List.mem_singleton.1 ht', hname, Option.some.injEq] at hother
        exact .inl (hother ▸ hmeta)
  | @type kind hvisible hkind =>
      refine ⟨fun hmem => ?_, fun hmem => ?_, fun {t' other} ht' hinput hother => ?_⟩
      · rcases Table.mem_insertEntry hmem with heq | hmem
        · cases heq
          exact .inl ⟨t, List.mem_append_right _ (List.mem_singleton_self t), hname, hkind⟩
        · exact hearlier hmem
      · rcases Table.mem_names_insert hmem with hmem | rfl
        · exact hd.visible hmem
        · exact hvisible
      · rcases List.mem_append.1 ht' with ht' | ht'
        · exact hd.input ht' hinput hother
        · rw [List.mem_singleton.1 ht'] at hinput
          rw [hinput] at hkind
          cases hkind
  | input hvisible hkind =>
      refine ⟨hearlier, hd.visible, fun {t' other} ht' hinput hother => ?_⟩
      rcases List.mem_append.1 ht' with ht' | ht'
      · exact (hd.input ht' hinput hother).imp_right fun hmem => List.mem_append_left _ hmem
      · rw [List.mem_singleton.1 ht', hname, Option.some.injEq] at hother
        exact .inr (List.mem_append_right _ (List.mem_singleton.2 hother.symm))

theorem addBuiltin (hd : d.Sourced declarations) {name : String} (hname : name ∈ builtinScalars) :
    (d.addBuiltin name).Sourced declarations := by
  have hvisible : ¬IsMeta name :=
    (by decide : ∀ name ∈ builtinScalars, ¬"__".toList <+: name.toList) name hname
  unfold Declared.addBuiltin
  split
  · exact hd
  · refine ⟨fun hmem => ?_, fun hmem => ?_, hd.input⟩
    · rcases Table.mem_insertEntry hmem with heq | hmem
      · cases heq
        exact .inr ⟨hname, rfl⟩
      · exact hd.type hmem
    · rcases Table.mem_names_insert hmem with hmem | rfl
      · exact hd.visible hmem
      · exact hvisible

end Declared.Sourced

theorem sourced_of_declare {schema : Introspection.Schema} {d : Declared}
    (hdeclare : declare schema = .ok d) :
    d.Sourced schema.types :=
  declare_induction .empty (fun hd hadd => hd.add hadd) (fun hname hd => hd.addBuiltin hname) hdeclare

theorem contains_addBuiltin {d : Declared} {name other : String} :
    (d.addBuiltin other).contains name = true ↔ d.contains name = true ∨ name = other := by
  unfold Declared.addBuiltin
  split
  · rename_i hother
    refine ⟨.inl, fun h => h.elim id ?_⟩
    rintro rfl
    exact hother
  · rw [Declared.contains, Table.contains, Table.get?_insert, Declared.contains, Table.contains]
    split <;> simp_all

theorem contains_foldl_addBuiltin {names : List String} {d : Declared} {name : String} :
    (names.foldl Declared.addBuiltin d).contains name = true ↔ d.contains name = true ∨ name ∈ names := by
  induction names generalizing d with
  | nil => simp
  | cons other rest ih => rw [List.foldl_cons, ih, contains_addBuiltin, List.mem_cons, or_assoc]

/-- The scalars of every schema are declared. -/
theorem contains_of_declare {schema : Introspection.Schema} {d : Declared} (hdeclare : declare schema = .ok d)
    {name : String} (hname : name ∈ builtinScalars) : d.contains name = true := by
  obtain ⟨d₀, -, rfl⟩ := Except.map_eq_ok.1 hdeclare
  exact contains_foldl_addBuiltin.2 (.inr hname)

/-- That a type is declared as one that fields may have. -/
structure Declared.Output (d : Declared) (name : String) : Prop where
  declared : d.contains name = true
  noInput : name ∉ d.inputs

/-- What a reference means is declared, whatever stands around the name. -/
theorem output_of_resolveReference {d : Declared} {location : String} {r : Reference} {type : TypeRef}
    (hresolve : resolveReference d location r = .ok type) : d.Output type.typeName := by
  fun_induction resolveReference d location r generalizing type with
  | case1 name inner ih =>
      obtain ⟨item, hitem, rfl⟩ := Except.map_eq_ok.1 hresolve
      rw [TypeRef.typeName_nonNull]
      exact ih hitem
  | case2 name inner ih =>
      obtain ⟨item, hitem, rfl⟩ := Except.map_eq_ok.1 hresolve
      have hitem := ih hitem
      exact hitem
  | case3 => cases hresolve
  | case4 => cases hresolve
  | case5 => cases hresolve
  | case6 =>
      rename_i hinput hdeclared
      cases hresolve
      exact ⟨hdeclared, fun hmem => hinput (List.contains_iff_mem.2 hmem)⟩
  | case7 => cases hresolve

theorem output_of_resolveFields {d : Declared} {name : String} {decl : Declaration}
    {fields : Table FieldDefinition}
    (hresolve : resolveFields d name decl = .ok fields) {f : FieldDefinition} (hf : f ∈ fields.values) :
    d.Output f.type.typeName := by
  obtain ⟨list, hmap, rfl⟩ := Except.map_eq_ok.1 hresolve
  obtain ⟨e, he, rfl⟩ := List.mem_map.1 hf
  obtain ⟨f, hlist, rfl⟩ := List.mem_map.1 (Table.mem_of_mem_ofList he)
  obtain ⟨source, -, hsource⟩ := exists_of_mem_forall₂ (forall₂_of_mapM hmap) hlist
  obtain ⟨type, htype, rfl⟩ := Except.map_eq_ok.1 hsource
  exact output_of_resolveReference htype

theorem contains_of_resolveNames {d : Declared} {name : String} {rs : Option (List Reference)}
    {names : List String}
    (hresolve : resolveNames d name rs = .ok names) {n : String} (hn : n ∈ names) : d.contains n = true := by
  obtain ⟨r, -, hr⟩ := exists_of_mem_forall₂ (forall₂_of_mapM hresolve) hn
  dsimp only [resolveName] at hr
  split at hr
  · cases hr
    assumption
  · cases hr

namespace Resolves

variable {d : Declared} {name : String} {kind : TypeKind} {decl : Declaration} {t : TypeDefinition}

theorem output (ht : Resolves d name kind decl t) {f : FieldDefinition} (hf : f ∈ t.fields.values) :
    d.Output f.type.typeName := by
  rcases ht.fields with hnone | hfields
  · rw [hnone] at hf
    cases hf
  · exact output_of_resolveFields hfields hf

theorem contains_interface (ht : Resolves d name kind decl t) {n : String} (hn : n ∈ t.interfaces) :
    d.contains n = true := by
  rcases ht.interfaces with hnone | hinterfaces
  · rw [hnone] at hn
    cases hn
  · exact contains_of_resolveNames hinterfaces hn

end Resolves

/-- The one field that tells the objects of a type apart. -/
theorem Filed.eq_of_isId {t : TypeDefinition} (ht : Filed t) {f g : FieldDefinition}
    (hf : f ∈ t.fields.values)
    (hg : g ∈ t.fields.values) (hidf : f.isId = true) (hidg : g.isId = true) : f = g := by
  have hid : ∀ e ∈ t.fields.entries, e.2.isId = true → e.1 = "id" := by
    intro e he hisId
    rw [ht.isId e he] at hisId
    simp only [Bool.and_eq_true, decide_eq_true_eq] at hisId
    rw [← ht.wireName e he]
    exact hisId.1.1
  have hget : ∀ f ∈ t.fields.values, f.isId = true → t.field? "id" = some f := by
    intro f hf hisId
    obtain ⟨e, he, rfl⟩ := List.mem_map.1 hf
    exact Table.get?_of_mem ht.nodup (hid e he hisId ▸ he)
  exact Option.some.inj ((hget f hf hidf).symm.trans (hget g hg hidg))

end Schema

open Schema
open Introspection (Declaration Reference)

/-- That a type has a field that tells its objects apart. -/
def TypeDefinition.HasIdField (t : TypeDefinition) : Prop := ∃ f ∈ t.fields.values, f.isId = true

theorem TypeDefinition.hasId_iff {t : TypeDefinition} : t.hasId = true ↔ t.HasIdField := by
  rw [hasId, idField?, List.find?_isSome]
  rfl

/-- That a graph has whatever it refers to, and that each thing in it is of the kind it has to be. -/
structure TypeGraph.Closed (schema : Introspection.Schema) (g : TypeGraph) : Prop
    extends g.Filed, g.Grounded where
  field : ∀ {name t f}, g.get? name = some t → f ∈ t.fields.values → g.contains f.type.typeName = true
  interface : ∀ {name t n}, g.get? name = some t → n ∈ t.interfaces → g.contains n = true
  undangling : g.danglingReferences = []
  visible : ∀ {name}, g.contains name = true → ¬IsMeta name
  nonempty : ∀ {name t}, g.get? name = some t → t.kind = .object → t.fields.entries ≠ []
  noInput : ∀ {name t f decl}, g.get? name = some t → f ∈ t.fields.values → decl ∈ schema.types →
    decl.kind = .inputObject → decl.name ≠ some f.type.typeName
  idField : ∀ {name t f}, g.get? name = some t → f ∈ t.fields.values →
    (f.isId = true ↔ f.wireName = "id" ∧ f.type.isList = false ∧ f.type.typeName = "ID")
  oneIdField : ∀ {name t f f'}, g.get? name = some t → f ∈ t.fields.values → f' ∈ t.fields.values →
    f.isId = true → f'.isId = true → f = f'
  builtin : ∀ name ∈ builtinScalars, ∃ t, g.get? name = some t ∧ (t.kind = .scalar ∨
    ∃ decl ∈ schema.types, decl.name = some name ∧ decl.kind ∈ [.object, .interface, .union, .enum])
  keyed : ∀ {name}, g.isKeyed name = true ↔ ∃ t, g.get? name = some t ∧
    (t.kind = .object ∧ t.HasIdField ∨ t.kind.isAbstract = true ∧ t.possibleTypes ≠ [] ∧
      ∀ n ∈ t.possibleTypes, ∃ t', g.get? n = some t' ∧ t'.HasIdField)

theorem Schema.contains_of_resolveTypes {d : Declared} {types : Table TypeDefinition}
    (htypes : resolveTypes d = .ok types) {name : String} :
    types.contains name = true ↔ d.contains name = true := by
  rw [Table.contains_iff, names_of_resolveTypes htypes, ← Table.contains_iff]
  rfl

theorem TypeGraph.danglingReferences_eq_nil {g : TypeGraph}
    (hfield : ∀ t ∈ g.definitions, ∀ f ∈ t.fields.values, g.contains f.type.typeName = true)
    (hnames : ∀ t ∈ g.definitions, ∀ n ∈ t.interfaces ++ t.possibleTypes, g.contains n = true) :
    g.danglingReferences = [] := by
  refine List.flatMap_eq_nil_iff.2 fun t ht => List.append_eq_nil_iff.2 ⟨?_, ?_⟩
  · exact List.filterMap_eq_nil_iff.2 fun f hf => if_pos (hfield t ht f hf)
  · exact List.filterMap_eq_nil_iff.2 fun n hn => if_pos (hnames t ht n hn)

theorem TypeGraph.isKeyed_iff {g : TypeGraph} {name : String} :
    g.isKeyed name = true ↔ ∃ t, g.get? name = some t ∧
      (t.kind = .object ∧ t.HasIdField ∨ t.kind.isAbstract = true ∧ t.possibleTypes ≠ [] ∧
        ∀ n ∈ t.possibleTypes, ∃ t', g.get? n = some t' ∧ t'.HasIdField) := by
  have hall : ∀ t : TypeDefinition, (!t.possibleTypes.isEmpty &&
      t.possibleTypes.all fun n => (g.get? n).any TypeDefinition.hasId) = true ↔ t.possibleTypes ≠ [] ∧
        ∀ n ∈ t.possibleTypes, ∃ t', g.get? n = some t' ∧ t'.HasIdField := by
    intro t
    simp only [Bool.and_eq_true, Bool.not_eq_true', List.isEmpty_eq_false_iff, List.all_eq_true,
      Option.any_eq_true, TypeDefinition.hasId_iff]
  unfold isKeyed
  cases g.get? name with
  | none => simp
  | some t =>
      cases hkind : t.kind <;> simp [hkind, TypeKind.isAbstract, hall, TypeDefinition.hasId_iff]

/-- What a graph has under the name of a scalar of every schema. -/
theorem TypeGraph.builtin_of_build {schema : Introspection.Schema} {g : TypeGraph}
    (hbuild : TypeGraph.build schema = .ok g) {name : String} (hname : name ∈ builtinScalars) :
    ∃ t, g.get? name = some t ∧ (t.kind = .scalar ∨ ∃ decl ∈ schema.types, decl.name = some name ∧
      decl.kind ∈ [.object, .interface, .union, .enum]) := by
  obtain ⟨d, hdeclare, htypes⟩ := declared_of_build hbuild
  obtain ⟨t, hget⟩ := Option.isSome_iff_exists.1
    ((contains_of_resolveTypes htypes).2 (contains_of_declare hdeclare hname))
  obtain ⟨kind, decl, hmem, hresolves⟩ := exists_of_get? htypes hget
  refine ⟨t, hget, ?_⟩
  rw [hresolves.ofKind]
  rcases (sourced_of_declare hdeclare).type hmem with ⟨source, hsource, hsourcename, hkind⟩ | ⟨-, hscalar⟩
  · cases hsourcekind : source.kind <;> rw [hsourcekind, Declared.outputKind?] at hkind
    case scalar =>
      rw [if_pos hname] at hkind
      exact .inl (Option.some.inj hkind).symm
    case object | interface | union | enum =>
      refine .inr ⟨source, hsource, hsourcename, ?_⟩
      rw [hsourcekind]
      decide
    case inputObject | list | nonNull => cases hkind
  · exact .inl hscalar

/-- Only the scalars of every schema are kept apart from the custom ones. -/
theorem TypeGraph.builtin_of_scalar {schema : Introspection.Schema} {g : TypeGraph}
    (hbuild : TypeGraph.build schema = .ok g) {name : String} {t : TypeDefinition}
    (hget : g.get? name = some t) (hscalar : t.kind = .scalar) : name ∈ builtinScalars := by
  obtain ⟨d, hdeclare, htypes⟩ := declared_of_build hbuild
  obtain ⟨kind, decl, hmem, hresolves⟩ := exists_of_get? htypes hget
  obtain rfl := hresolves.ofKind.symm.trans hscalar
  rcases (sourced_of_declare hdeclare).type hmem with ⟨source, -, -, hkind⟩ | ⟨hname, -⟩
  · cases hsourcekind : source.kind <;> rw [hsourcekind, Declared.outputKind?] at hkind
    case scalar =>
      by_contra hcustom
      rw [if_neg hcustom] at hkind
      cases hkind
    all_goals cases hkind
  · exact hname

/-- A graph that is built from a schema is closed. -/
theorem TypeGraph.closed_of_build {schema : Introspection.Schema} {g : TypeGraph}
    (hbuild : TypeGraph.build schema = .ok g) : g.Closed schema := by
  obtain ⟨d, hdeclare, htypes⟩ := declared_of_build hbuild
  have hfiled := filed_of_build hbuild
  have hgrounded := grounded_of_build hbuild
  have hsourced := sourced_of_declare hdeclare
  have hcontains : ∀ {name}, g.contains name = true ↔ d.contains name = true :=
    contains_of_resolveTypes htypes
  have hvisible : ∀ {name}, g.contains name = true → ¬IsMeta name := fun h =>
    hsourced.visible (Table.contains_iff.1 (hcontains.1 h))
  have hresolves : ∀ {name t}, g.get? name = some t → ∃ kind decl, Resolves d name kind decl t := by
    intro name t hget
    obtain ⟨kind, decl, -, hresolves⟩ := exists_of_get? htypes hget
    exact ⟨kind, decl, hresolves⟩
  have houtput : ∀ {name t f}, g.get? name = some t → f ∈ t.fields.values → d.Output f.type.typeName := by
    intro name t f hget hf
    obtain ⟨kind, decl, hresolves⟩ := hresolves hget
    exact hresolves.output hf
  have hinterface : ∀ {name t n}, g.get? name = some t → n ∈ t.interfaces → g.contains n = true := by
    intro name t n hget hn
    obtain ⟨kind, decl, hresolves⟩ := hresolves hget
    exact hcontains.2 (hresolves.contains_interface hn)
  have hpossible : ∀ {name t n}, g.get? name = some t → n ∈ t.possibleTypes → g.contains n = true := by
    intro name t n hget hn
    obtain ⟨t', ht', -⟩ := hgrounded.possible name t hget n hn
    exact Option.isSome_of_eq_some ht'
  refine
    { toFiled := hfiled
      toGrounded := hgrounded
      field := fun hget hf => hcontains.2 (houtput hget hf).declared
      interface := hinterface
      undangling := ?_
      visible := hvisible
      nonempty := ?_
      noInput := ?_
      idField := ?_
      oneIdField := fun hget => (hfiled.type _ (Table.mem_of_get? hget)).eq_of_isId
      builtin := fun _ => builtin_of_build hbuild
      keyed := isKeyed_iff }
  · refine danglingReferences_eq_nil (fun t ht f hf => ?_) (fun t ht n hn => ?_)
    · exact hcontains.2 (houtput (hfiled.get?_name ht) hf).declared
    · exact (List.mem_append.1 hn).elim (hinterface (hfiled.get?_name ht)) (hpossible (hfiled.get?_name ht))
  · intro name t hget hkind
    obtain ⟨kind, decl, hresolves⟩ := hresolves hget
    exact hresolves.nonempty (hresolves.ofKind.symm.trans hkind)
  · intro name t f decl hget hf hdecl hinput hname
    have houtput := houtput hget hf
    -- an input object is hidden, so that nothing finds it, or its name is remembered, so
    -- that no field may use it
    rcases hsourced.input hdecl hinput hname with hmeta | hmem
    · exact hvisible (hcontains.2 houtput.declared) hmeta
    · exact houtput.noInput hmem
  · intro name t f hget hf
    obtain ⟨e, he, rfl⟩ := List.mem_map.1 hf
    rw [(hfiled.type _ (Table.mem_of_get? hget)).isId e he]
    simp only [Bool.and_eq_true, Bool.not_eq_true', decide_eq_true_eq, and_assoc]

section Sample

/-- Items that are found as nodes, an input object, and a type of introspection. -/
def nodeSchema : Introspection.Schema :=
  let named (kind : Introspection.Kind) (name : String) : Reference := .mk kind (some name) none
  let field (name : String) (type : Reference) : Introspection.Field := ⟨name, none, [], type, false, none⟩
  let idField := field "id" (.mk .nonNull none (some (named .scalar "ID")))
  let nodes := field "nodes" (.mk .list none (some (named .interface "Node")))
  ⟨none, none, none,
    [{ Declaration.bare .object "Query" with fields := some [nodes] },
      { Declaration.bare .interface "Node" with
        fields := some [idField], possibleTypes := some [named .object "Item"] },
      { Declaration.bare .object "Item" with
        fields := some [idField, field "next" (named .object "Item")]
        interfaces := some [named .interface "Node"] },
      Declaration.bare .inputObject "Filter",
      { Declaration.bare .object "__Type" with fields := some [field "name" (named .scalar "String")] }]⟩

/-- Items and nodes can be told apart. -/
theorem closed_nodeSchema : ∃ g, TypeGraph.build nodeSchema = .ok g ∧ g.Closed nodeSchema ∧
    g.types.names = ["Query", "Node", "Item", "String", "Int", "Float", "Boolean", "ID"] ∧
    g.types.names.filter g.isKeyed = ["Node", "Item"] :=
  ⟨_, rfl, TypeGraph.closed_of_build rfl, rfl, rfl⟩

/-- A schema that calls an enumeration `ID`. -/
def enumIdSchema : Introspection.Schema :=
  ⟨none, none, none,
    [{ Declaration.bare .object "Query" with
        fields := some [⟨"title", none, [], .mk .scalar (some "String") none, false, none⟩] },
      { Declaration.bare .enum "ID" with enumValues := some [⟨"A", none, false⟩] }]⟩

/-- The scalars of every schema are not scalars of every graph: a schema may call
something else like one of them. -/
theorem not_scalar_of_build : ¬∀ {schema g}, TypeGraph.build schema = .ok g → g.Closed schema ∧
    ∀ name ∈ builtinScalars, ∃ t, g.get? name = some t ∧ t.kind = .scalar := by
  intro hall
  have hbuild : ∃ g, TypeGraph.build enumIdSchema = .ok g ∧ (g.get? "ID").map (·.kind) = some .enum :=
    ⟨_, rfl, rfl⟩
  obtain ⟨g, hbuild, henum⟩ := hbuild
  obtain ⟨t, hget, hscalar⟩ := (hall hbuild).2 "ID" (by decide)
  rw [hget, Option.map_some, hscalar] at henum
  cases henum

end Sample

end GraphClient
