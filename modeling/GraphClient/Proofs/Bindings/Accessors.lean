import GraphClient.Bindings.Compile
import GraphClient.Proofs.Bindings.Emitting
import GraphClient.Proofs.Live.Plans
import GraphClient.Proofs.Scalar.Registry
import GraphClient.Proofs.Schema.Closed

/-! Generated code fits the store. The methods of a field are written by one reading of its type and
the field is stored by another one; for a built graph whose scalars all have converters both come to
the same. A field has methods just if it is stored, and they are its accessors. -/

namespace GraphClient

namespace TypeRef

variable {type : TypeRef}

theorem eq_named_of_depth (hdepth : type.depth = 0) : type = .named type.nullable type.typeName := by
  cases type with
  | named nullable name => rfl
  | list nullable item => cases hdepth

theorem eq_list_of_depth (hdepth : type.depth = 1) :
    type = .list type.nullable (.named (type.item?.any (·.nullable)) type.typeName) := by
  cases type with
  | named nullable name => cases hdepth
  | list nullable item =>
      have hitem : item = .named item.nullable item.typeName := eq_named_of_depth (Nat.succ.inj hdepth)
      rw [hitem]
      rfl

theorem eq_nested_of_depth (hdepth : 1 < type.depth) :
    ∃ nullable itemNullable item, type = .list nullable (.list itemNullable item) := by
  cases type with
  | named nullable name => cases hdepth
  | list nullable item =>
      cases item with
      | named itemNullable name => exact absurd hdepth (lt_irrefl 1)
      | list itemNullable item => exact ⟨nullable, itemNullable, item, rfl⟩

end TypeRef

namespace Live

/-- Only an enumeration can be called like the type that takes each value as it is. -/
theorem Leaf.exists_of_native_any {leaf : Leaf} (hany : leaf.native = "rt::Value") :
    ∃ members, leaf = .enum "rt::Value" members := by
  cases leaf with
  | scalar c => exact absurd hany c.typeText_ne_any
  | enum typeName members => exact ⟨members, by rw [← hany]; rfl⟩

/-- There is a leaf under the name of an enumeration, and of a scalar with a converter. -/
theorem leafOf?_eq_some {g : TypeGraph} {r : Registry} {name : String} {t : TypeDefinition}
    (hget : g.get? name = some t) (hleaf : t.kind = .enum ∨ ∃ c, r.find? name = some c) :
    ∃ leaf, leafOf? g r name = some leaf := by
  rw [leafOf?, hget]
  by_cases henum : t.kind = .enum
  · exact ⟨_, if_pos henum⟩
  · obtain ⟨c, hfind⟩ := hleaf.resolve_left henum
    exact ⟨.scalar c, (if_neg henum).trans (by rw [hfind, Option.map_some])⟩

end Live

namespace Bindings

open Live (Leaf FieldPlan TypePlan Plans Planned leafOf? planField planType)

theorem checkScalars_eq_ok {g : TypeGraph} {r : Registry} :
    checkScalars g r = .ok () ↔ ∀ name ∈ usedScalars g, ∃ c, r.find? name = some c := by
  rw [checkScalars, forM_eq_ok]
  refine forall₂_congr fun name _ => ?_
  rw [Except.map_eq_ok, Registry.resolve]
  cases r.find? name with
  | none => simp
  | some c => simp

section

variable {schema : Introspection.Schema} {g : TypeGraph} {r : Registry}

/-- The type that generated code takes a name for is that of the leaf under the name. -/
theorem leafType_eq_native (hfiled : g.Filed) {name : String} {leaf : Leaf}
    (hleaf : leafOf? g r name = some leaf) :
    Source.leafType ⟨g, r⟩ name = leaf.native := by
  rw [leafOf?] at hleaf
  rw [Source.leafType]
  cases hget : g.get? name with
  | none =>
      rw [hget] at hleaf
      obtain ⟨c, hfind, rfl⟩ := Option.map_eq_some_iff.1 hleaf
      rw [hfind]
      rfl
  | some t =>
      rw [hget] at hleaf
      dsimp only at hleaf
      by_cases henum : t.kind = .enum
      · rw [if_pos henum] at hleaf
        cases hleaf
        rw [Option.map_some, if_pos (congrArg some henum)]
        exact (hfiled.name_of_get? hget).symm
      · rw [if_neg henum] at hleaf
        obtain ⟨c, hfind, rfl⟩ := Option.map_eq_some_iff.1 hleaf
        rw [Option.map_some, if_neg fun h => henum (Option.some.inj h), hfind]
        rfl

/-- Where every scalar in use has a converter, every field of a composite type
that is no object has a leaf. -/
theorem exists_leafOf? (hbuild : TypeGraph.build schema = .ok g) (hr : r.Reached)
    (hcheck : checkScalars g r = .ok ())
    {t : TypeDefinition} (ht : t ∈ g.definitions) (hcomposite : t.kind.isComposite = true)
    {f : FieldDefinition} (hf : f ∈ t.fields.values) (hsimple : ¬g.IsComposite f.type.typeName) :
    ∃ leaf, leafOf? g r f.type.typeName = some leaf := by
  have hclosed := TypeGraph.closed_of_build hbuild
  obtain ⟨target, (hget : g.get? _ = some target)⟩ :=
    Option.isSome_iff_exists.1 (hclosed.field (hclosed.get?_name ht) hf)
  refine Live.leafOf?_eq_some hget ?_
  cases hkind : target.kind with
  | enum => exact .inl rfl
  | scalar =>
      exact .inr (Option.isSome_iff_exists.1
        (hr.isSome_builtin (TypeGraph.builtin_of_scalar hbuild hget hkind)))
  | customScalar =>
      refine .inr (checkScalars_eq_ok.1 hcheck _
        (List.mem_flatMap.2 ⟨t, List.mem_filter.2 ⟨ht, hcomposite⟩, ?_⟩))
      refine List.mem_filter.2 ⟨List.mem_map_of_mem hf, ?_⟩
      rw [hget, Option.any_some, hkind]
      rfl
  | object | interface | union => exact absurd ⟨target, hget, by rw [hkind]; rfl⟩ hsimple

end

section

variable {g : TypeGraph} {r : Registry} {f : FieldDefinition}

theorem isComposite_kindOf {name : String} :
    (Source.kindOf ⟨g, r⟩ name).isComposite = true ↔ g.IsComposite name :=
  Live.kind_getD (f := TypeKind.isComposite) rfl

theorem isAbstract_kindOf {name : String} :
    (Source.kindOf ⟨g, r⟩ name).isAbstract = true ↔ g.IsAbstract name :=
  Live.kind_getD (f := TypeKind.isAbstract) rfl

/-- The code of a field is what its plan asks for. -/
theorem fieldCode_of_planned (hfiled : g.Filed) {plan : Option FieldPlan} (hplanned : Planned g r f plan) :
    fieldCode ⟨g, r⟩ f = storedCode f plan := by
  cases hplanned with
  | leaf hdepth hsimple hleaf =>
      rw [fieldCode, TypeRef.eq_named_of_depth hdepth]
      dsimp only
      rw [if_neg (mt isComposite_kindOf.1 hsimple), leafType_eq_native hfiled hleaf,
        leafMethods_eq, hookMethod_eq, List.append_assoc]
      rfl
  | leafList hdepth hsimple hleaf =>
      rw [fieldCode, TypeRef.eq_list_of_depth hdepth]
      dsimp only
      rw [if_neg (mt isComposite_kindOf.1 hsimple), leafType_eq_native hfiled hleaf,
        leafListMethods_eq, hookMethod_eq, List.append_assoc]
      rfl
  | object hdepth hcomposite hone =>
      rw [fieldCode, TypeRef.eq_named_of_depth hdepth]
      dsimp only
      rw [if_pos (isComposite_kindOf.2 hcomposite), Bool.eq_false_iff.2 (mt isAbstract_kindOf.1 hone),
        compositeMethods_object, hookMethod_eq, List.append_assoc]
      rfl
  | abstract hdepth hseveral =>
      rw [fieldCode, TypeRef.eq_named_of_depth hdepth]
      dsimp only
      rw [if_pos (isComposite_kindOf.2 hseveral.isComposite), isAbstract_kindOf.2 hseveral,
        compositeMethods_abstract, hookMethod_eq, List.append_assoc]
      rfl
  | objectList hdepth hcomposite habstract =>
      rw [fieldCode, TypeRef.eq_list_of_depth hdepth]
      dsimp only
      rw [if_pos (isComposite_kindOf.2 hcomposite),
        Bool.eq_iff_iff.2 (isAbstract_kindOf.trans habstract.symm),
        compositeListMethods_eq, hookMethod_eq, List.append_assoc]
      rfl
  | nested hdepth =>
      obtain ⟨nullable, itemNullable, item, htype⟩ := TypeRef.eq_nested_of_depth hdepth
      rw [fieldCode, storedCode, htype]
      rfl

theorem text_leaf (leaf : Leaf) (nullable : Bool) : (Accessors.leaf leaf nullable).type.text =
    if nullable then optionOf leaf.native else leaf.native := by
  cases nullable <;> rfl

theorem text_leafList (leaf : Leaf) (nullable itemNullable : Bool) :
    (Accessors.leafList leaf nullable itemNullable).type.text = listOf leaf.native nullable itemNullable := by
  cases nullable <;> cases itemNullable <;> rfl

/-- The type of a getter is what the plan asks for. -/
theorem accessorType?_of_planned (hfiled : g.Filed) {plan : Option FieldPlan}
    (hplanned : Planned g r f plan) :
    Source.accessorType? ⟨g, r⟩ f.type = plan.map fun p => (accessorsOf p).type.text := by
  cases hplanned with
  | leaf hdepth hsimple hleaf =>
      rw [TypeRef.eq_named_of_depth hdepth, Source.accessorType?, if_neg (mt isComposite_kindOf.1 hsimple),
        leafType_eq_native hfiled hleaf, Option.map_some]
      exact congrArg some (text_leaf ..).symm
  | leafList hdepth hsimple hleaf =>
      rw [TypeRef.eq_list_of_depth hdepth, Source.accessorType?, if_neg (mt isComposite_kindOf.1 hsimple),
        leafType_eq_native hfiled hleaf]
      exact congrArg some (text_leafList ..).symm
  | object hdepth hcomposite hone =>
      rw [TypeRef.eq_named_of_depth hdepth, Source.accessorType?, if_pos (isComposite_kindOf.2 hcomposite)]
      rfl
  | abstract hdepth hseveral =>
      rw [TypeRef.eq_named_of_depth hdepth, Source.accessorType?,
        if_pos (isComposite_kindOf.2 hseveral.isComposite)]
      rfl
  | objectList hdepth hcomposite habstract =>
      rw [TypeRef.eq_list_of_depth hdepth, Source.accessorType?, if_pos (isComposite_kindOf.2 hcomposite)]
      rfl
  | nested hdepth =>
      obtain ⟨nullable, itemNullable, item, htype⟩ := TypeRef.eq_nested_of_depth hdepth
      rw [htype]
      rfl

theorem Code.methodNames_append (first second : List Code) :
    Code.methodNames (first ++ second) = Code.methodNames first ++ Code.methodNames second :=
  List.filterMap_append

theorem Code.exists_doc_of_mem_docs {description : Option String} {c : Code}
    (hc : c ∈ Code.docs description) :
    ∃ text, c = .doc text := by
  cases description with
  | none => cases hc
  | some text =>
      obtain ⟨l, -, rfl⟩ := List.mem_map.1 hc
      exact ⟨_, rfl⟩

/-- The methods of a field that is stored. -/
theorem methods_storedCode (f : FieldDefinition) (plan : FieldPlan) :
    getterName f ∈ Code.methodNames (storedCode f (some plan)) ∧
      setterName f ∈ Code.methodNames (storedCode f (some plan)) ∧
      hookName f ∈ Code.methodNames (storedCode f (some plan)) := by
  simp only [storedCode, storedMethods, Accessors.methods, Code.methodNames_append, List.mem_append]
  simp [Code.methodNames]

/-- A field has a method just if it is stored. -/
theorem mem_methodNames_storedCode {f : FieldDefinition} {plan : Option FieldPlan} {name : String}
    (hname : name ∈ [getterName f, setterName f, hookName f]) :
    name ∈ Code.methodNames (storedCode f plan) ↔ plan.isSome = true := by
  cases plan with
  | none => exact ⟨nofun, nofun⟩
  | some plan =>
      obtain ⟨hgetter, hsetter, hhook⟩ := methods_storedCode f plan
      refine ⟨fun _ => rfl, fun _ => ?_⟩
      rcases List.mem_cons.1 hname with rfl | hname
      · exact hgetter
      · rcases List.mem_cons.1 hname with rfl | hname
        · exact hsetter
        · rw [List.mem_singleton.1 hname]
          exact hhook

end

section

variable {schema : Introspection.Schema} {g : TypeGraph} {r : Registry}

/-- A field whose leaf is known has a plan. -/
theorem exists_planField {f : FieldDefinition} (typeName : String)
    (hleaf : ¬g.IsComposite f.type.typeName → ∃ leaf, leafOf? g r f.type.typeName = some leaf) :
    ∃ plan, planField g r typeName f = .ok plan := by
  have hsimple (hkind : (Source.kindOf ⟨g, r⟩ f.type.typeName).isComposite = false) :
      ∃ leaf, leafOf? g r f.type.typeName = some leaf :=
    hleaf fun hcomposite => Bool.false_ne_true (hkind.symm.trans (isComposite_kindOf.2 hcomposite))
  dsimp only [planField]
  split
  · rename_i hkind
    obtain ⟨leaf, hleaf⟩ := hsimple hkind
    rw [hleaf]
    exact ⟨_, rfl⟩
  · exact ⟨_, rfl⟩
  · rename_i hkind
    obtain ⟨leaf, hleaf⟩ := hsimple hkind
    rw [hleaf]
    exact ⟨_, rfl⟩
  · exact ⟨_, rfl⟩
  · exact ⟨_, rfl⟩

/-- Among the planned fields of a type, the one with the name of a field is as that field is planned. -/
theorem find?_planned {typeName : String} {definitions : List FieldDefinition}
    {plans : List (Option FieldPlan)}
    (hall : List.Forall₂ (fun f plan => planField g r typeName f = .ok plan) definitions plans)
    (hnodup : (definitions.map (·.wireName)).Nodup) {f : FieldDefinition} (hf : f ∈ definitions)
    {plan : Option FieldPlan} (hplan : planField g r typeName f = .ok plan) :
    (plans.filterMap id).find? (fun p => p.wireName == f.wireName) = plan := by
  induction hall with
  | nil => cases hf
  | @cons first found definitions plans hfirst hrest ih =>
      rw [List.map_cons, List.nodup_cons] at hnodup
      rcases List.mem_cons.1 hf with rfl | hlater
      · obtain rfl := Except.ok.inj (hfirst.symm.trans hplan)
        cases found with
        | some p =>
            rw [List.filterMap_cons, id, List.find?_cons_of_pos]
            exact beq_iff_eq.2 (Live.wireName_of_planField hfirst)
        | none =>
            rw [List.filterMap_cons, id, List.find?_eq_none]
            intro p hp hsame
            refine hnodup.1 ?_
            rw [← beq_iff_eq.1 hsame]
            exact (Live.names_sublist hrest).subset (List.mem_map_of_mem hp)
      · have hother : first.wireName ≠ f.wireName := fun hsame =>
          hnodup.1 (hsame ▸ List.mem_map_of_mem hlater)
        cases found with
        | some p =>
            rw [List.filterMap_cons, id, List.find?_cons_of_neg]
            · exact ih hnodup.2 hlater
            · rw [Live.wireName_of_planField hfirst]
              exact fun hsame => hother (beq_iff_eq.1 hsame)
        | none =>
            rw [List.filterMap_cons, id]
            exact ih hnodup.2 hlater

/-- What a type plan has under the name of a field is how the field is planned. -/
theorem field?_of_planType (hfiled : g.Filed) {t : TypeDefinition} (ht : t ∈ g.definitions) {plan : TypePlan}
    (hplan : planType g r t = .ok plan) {f : FieldDefinition} (hf : f ∈ t.fields.values) :
    planField g r t.name f = .ok (plan.field? f.wireName) := by
  obtain ⟨-, fields, heq, hall⟩ := Live.planType_eq_ok hplan
  obtain ⟨field?, -, hfield⟩ := exists_right_of_mem_forall₂ hall hf
  rw [hfield, TypePlan.field?, heq, find?_planned hall (hfiled.filed_of_mem ht).wireNames_nodup hf hfield]

theorem exists_build (hbuild : TypeGraph.build schema = .ok g) (hr : r.Reached)
    (hcheck : checkScalars g r = .ok ()) :
    ∃ plans, Plans.build g r = .ok plans := by
  have htypes : ∀ t ∈ g.ofKind .object, ∃ plan, planType g r t = .ok plan := by
    intro t ht
    obtain ⟨hmem, hkind⟩ := List.mem_filter.1 ht
    have hcomposite : t.kind.isComposite = true := by rw [of_decide_eq_true hkind]; rfl
    obtain ⟨fields, hfields⟩ := exists_mapM fun f hf =>
      exists_planField t.name (exists_leafOf? hbuild hr hcheck hmem hcomposite hf)
    exact ⟨_, Except.bind_eq_ok.2 ⟨fields, hfields, rfl⟩⟩
  obtain ⟨types, htypes⟩ := exists_mapM htypes
  exact ⟨_, Except.bind_eq_ok.2 ⟨types, htypes, rfl⟩⟩

/-- The code of a field fits what is stored for it. -/
structure Fits (s : Source) (plan : TypePlan) (f : FieldDefinition) : Prop where
  getter : getterName f ∈ Code.methodNames (fieldCode s f) ↔ (plan.field? f.wireName).isSome = true
  setter : setterName f ∈ Code.methodNames (fieldCode s f) ↔ (plan.field? f.wireName).isSome = true
  hook : hookName f ∈ Code.methodNames (fieldCode s f) ↔ (plan.field? f.wireName).isSome = true
  /-- The methods are the accessors for what is stored: of its type, and written as they read. -/
  code : fieldCode s f = storedCode f (plan.field? f.wireName)
  type : s.accessorType? f.type = (plan.field? f.wireName).map fun p => (accessorsOf p).type.text

/-- Generated code and store agree. If every custom scalar in use has a converter, every object type
has a plan, and each of its fields has methods just if the plan stores it, whose types and bodies are
then those of the accessors for what is stored. No field of any type is read as a value of unknown
type, for the type of a leaf is its own enumeration or what its converter gives. -/
theorem accessors_fit (hbuild : TypeGraph.build schema = .ok g) (hr : r.Reached)
    (hcheck : checkScalars g r = .ok ()) :
    (∀ t ∈ g.definitions, t.kind.isComposite = true → ∀ f ∈ t.fields.values, ¬g.IsComposite f.type.typeName →
      ∃ leaf, leafOf? g r f.type.typeName = some leaf ∧ Source.leafType ⟨g, r⟩ f.type.typeName = leaf.native ∧
        (leaf.native = "rt::Value" → ∃ members, leaf = .enum "rt::Value" members)) ∧
    ∃ plans, Plans.build g r = .ok plans ∧ ∀ t ∈ g.ofKind .object, ∃ plan, plans.get? t.name = some plan ∧
      ∀ f ∈ t.fields.values, Fits ⟨g, r⟩ plan f := by
  have hfiled := TypeGraph.filed_of_build hbuild
  refine ⟨fun t ht hcomposite f hf hsimple => ?_, ?_⟩
  · obtain ⟨leaf, hleaf⟩ := exists_leafOf? hbuild hr hcheck ht hcomposite hf hsimple
    exact ⟨leaf, hleaf, leafType_eq_native hfiled hleaf, Leaf.exists_of_native_any⟩
  · obtain ⟨plans, hplans⟩ := exists_build hbuild hr hcheck
    refine ⟨plans, hplans, fun t ht => ?_⟩
    obtain ⟨hmem, hkind⟩ := List.mem_filter.1 ht
    obtain ⟨plan, hget, hplan⟩ :=
      Plans.exists_of_build hfiled hplans (hfiled.get?_name hmem) (of_decide_eq_true hkind)
    refine ⟨plan, hget, fun f hf => ?_⟩
    have hplanned := Live.planned_of_planField (field?_of_planType hfiled hmem hplan hf)
    have hcode := fieldCode_of_planned hfiled hplanned
    refine ⟨?_, ?_, ?_, hcode, accessorType?_of_planned hfiled hplanned⟩
    · rw [hcode, mem_methodNames_storedCode (by simp)]
    · rw [hcode, mem_methodNames_storedCode (by simp)]
    · rw [hcode, mem_methodNames_storedCode (by simp)]

end

section Sample

open Introspection (Declaration Reference)

/-- A schema with fields of many shapes: an enumeration, a custom scalar, objects of one and of
several types, lists of them, and a list of lists. -/
def shapesSchema : Introspection.Schema :=
  let named (name : String) : Reference := .mk .object (some name) none
  let listOf (item : Reference) : Reference := .mk .list none (some item)
  let field (name : String) (type : Reference) : Introspection.Field := ⟨name, none, [], type, false, none⟩
  ⟨none, none, none,
    [{ Declaration.bare .object "Query" with
        fields := some [
          field "state" (named "State"), field "since" (.mk .nonNull none (some (named "DateTime"))),
          field "tags" (listOf (named "String")), field "first" (named "Item"), field "found" (named "Node"),
          field "nodes" (listOf (named "Node")), field "grid" (listOf (listOf (named "Int")))] },
      { Declaration.bare .interface "Node" with
        fields := some [field "id" (named "ID")], possibleTypes := some [named "Item"] },
      { Declaration.bare .object "Item" with fields := some [field "id" (named "ID")] },
      { Declaration.bare .enum "State" with enumValues := some [⟨"OPEN", none, false⟩] },
      Declaration.bare .scalar "DateTime"]⟩

def shapesGraph : TypeGraph :=
  match TypeGraph.build shapesSchema with
  | .ok graph => graph
  | .error _ => ⟨.empty, "", none, none⟩

theorem build_shapesSchema : TypeGraph.build shapesSchema = .ok shapesGraph := rfl

theorem accessors_fit_shapesGraph :
    TypeGraph.build shapesSchema = .ok shapesGraph ∧ Registry.standard.Reached ∧
      checkScalars shapesGraph .standard = .ok () ∧
      (∀ t ∈ shapesGraph.definitions, t.kind.isComposite = true → ∀ f ∈ t.fields.values,
        ¬shapesGraph.IsComposite f.type.typeName →
        ∃ leaf, leafOf? shapesGraph .standard f.type.typeName = some leaf ∧
          Source.leafType ⟨shapesGraph, .standard⟩ f.type.typeName = leaf.native ∧
          (leaf.native = "rt::Value" → ∃ members, leaf = .enum "rt::Value" members)) ∧
      ∃ plans, Plans.build shapesGraph .standard = .ok plans ∧
        ∀ t ∈ shapesGraph.ofKind .object, ∃ plan, plans.get? t.name = some plan ∧
          ∀ f ∈ t.fields.values, Fits ⟨shapesGraph, .standard⟩ plan f :=
  ⟨build_shapesSchema, .standard, rfl, accessors_fit build_shapesSchema .standard rfl⟩

end Sample

end Bindings

end GraphClient
