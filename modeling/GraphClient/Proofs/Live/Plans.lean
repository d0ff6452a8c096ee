import GraphClient.Proofs.Live.Invariant
import GraphClient.Proofs.Schema.Build

/-! Plans of built graphs. The plan of an object type has its fields in the order of the schema, each with
the name and the kind that the schema gives it, so that no two of them have the same name. -/

namespace GraphClient.Live

variable {graph : TypeGraph} {scalars : Registry}

/-- A field as it is planned, with what it holds. -/
def plannedAs (definition : FieldDefinition) (kind : FieldKind) : FieldPlan :=
  ⟨definition.name, definition.wireName, kind, definition.type.nullable, definition.isId⟩

/-- How a field is planned, by the depth of its type and what its named type is. -/
inductive Planned (graph : TypeGraph) (scalars : Registry) (definition : FieldDefinition) :
    Option FieldPlan → Prop
  | leaf {leaf : Leaf} (hdepth : definition.type.depth = 0)
      (hsimple : ¬graph.IsComposite definition.type.typeName)
      (hleaf : leafOf? graph scalars definition.type.typeName = some leaf) :
      Planned graph scalars definition (some (plannedAs definition (.leaf leaf)))
  | leafList {leaf : Leaf} (hdepth : definition.type.depth = 1)
      (hsimple : ¬graph.IsComposite definition.type.typeName)
      (hleaf : leafOf? graph scalars definition.type.typeName = some leaf) :
      Planned graph scalars definition
        (some (plannedAs definition (.leafList leaf (definition.type.item?.any (·.nullable)))))
  | object (hdepth : definition.type.depth = 0) (hcomposite : graph.IsComposite definition.type.typeName)
      (hone : ¬graph.IsAbstract definition.type.typeName) :
      Planned graph scalars definition (some (plannedAs definition (.object definition.type.typeName)))
  | abstract (hdepth : definition.type.depth = 0) (hseveral : graph.IsAbstract definition.type.typeName) :
      Planned graph scalars definition (some (plannedAs definition (.abstract definition.type.typeName)))
  | objectList {isAbstract : Bool} (hdepth : definition.type.depth = 1)
      (hcomposite : graph.IsComposite definition.type.typeName)
      (habstract : isAbstract = true ↔ graph.IsAbstract definition.type.typeName) :
      Planned graph scalars definition (some (plannedAs definition
        (.objectList definition.type.typeName isAbstract (graph.isKeyed definition.type.typeName))))
  /-- A list of lists. -/
  | nested (hdepth : 1 < definition.type.depth) : Planned graph scalars definition none

theorem kind_getD {f : TypeKind → Bool} (hf : f .customScalar = false) {name : String} :
    f (((graph.get? name).map (·.kind)).getD .customScalar) = true ↔ ∃ t, graph.get? name = some t ∧
      f t.kind = true := by
  cases graph.get? name with
  | none => simp [hf]
  | some t => simp

theorem planned_of_planField {typeName : String} {definition : FieldDefinition} {field? : Option FieldPlan}
    (hplan : planField graph scalars typeName definition = .ok field?) :
    Planned graph scalars definition field? := by
  have hcomposite := @kind_getD graph TypeKind.isComposite rfl definition.type.typeName
  have habstract := @kind_getD graph TypeKind.isAbstract rfl definition.type.typeName
  rw [planField] at hplan
  split at hplan
  · rename_i hdepth hkind
    obtain ⟨leaf, hread, rfl⟩ := Except.map_eq_ok.1 hplan
    split at hread <;> cases hread
    exact .leaf hdepth (fun h => Bool.false_ne_true (hkind.symm.trans (hcomposite.2 h))) ‹_›
  · rename_i hdepth hkind
    cases hplan
    dsimp only
    split
    · rename_i hseveral
      exact .abstract hdepth (habstract.1 hseveral)
    · rename_i hone
      exact .object hdepth (hcomposite.1 hkind) fun h => hone (habstract.2 h)
  · rename_i hdepth hkind
    obtain ⟨leaf, hread, rfl⟩ := Except.map_eq_ok.1 hplan
    split at hread <;> cases hread
    exact .leafList hdepth (fun h => Bool.false_ne_true (hkind.symm.trans (hcomposite.2 h))) ‹_›
  · rename_i hdepth hkind
    cases hplan
    exact .objectList hdepth (hcomposite.1 hkind) habstract
  · rename_i hleaf₀ hcomposite₀ hleaf₁ hcomposite₁
    cases hplan
    refine .nested (Nat.lt_of_not_le fun hle => ?_)
    rcases Nat.le_one_iff_eq_zero_or_eq_one.1 hle with hdepth | hdepth
    · exact (Bool.eq_false_or_eq_true _).elim (hcomposite₀ hdepth) (hleaf₀ hdepth)
    · exact (Bool.eq_false_or_eq_true _).elim (hcomposite₁ hdepth) (hleaf₁ hdepth)

/-- A field is planned under its own name. -/
theorem wireName_of_planField {typeName : String} {definition : FieldDefinition} {field : FieldPlan}
    (hplan : planField graph scalars typeName definition = .ok (some field)) :
    field.wireName = definition.wireName := by
  cases planned_of_planField hplan <;> rfl

theorem planType_eq_ok {t : TypeDefinition} {plan : TypePlan} (hplan : planType graph scalars t = .ok plan) :
    plan.name = t.name ∧ ∃ fields, plan.fields = fields.filterMap id ∧
      List.Forall₂ (fun definition field => planField graph scalars t.name definition = .ok field)
        t.fields.values fields := by
  obtain ⟨fields, hmap, hplan⟩ := Except.bind_eq_ok.1 hplan
  cases hplan
  exact ⟨rfl, fields, rfl, forall₂_of_mapM hmap⟩

/-- The planned fields are fields of the type, in their order. -/
theorem names_sublist {typeName : String} {definitions : List FieldDefinition}
    {fields : List (Option FieldPlan)}
    (hall : List.Forall₂ (fun definition field => planField graph scalars typeName definition = .ok field)
      definitions fields) :
    ((fields.filterMap id).map (·.wireName)).Sublist (definitions.map (·.wireName)) := by
  induction hall with
  | nil => exact .slnil
  | @cons definition field definitions fields hfirst _ ih =>
      cases field with
      | none => exact ih.cons _
      | some plan =>
          rw [List.filterMap_cons, id, List.map_cons, List.map_cons, wireName_of_planField hfirst]
          exact ih.cons_cons _

theorem Plans.graph_of_build {plans : Plans} (hbuild : Plans.build graph scalars = .ok plans) :
    plans.graph = graph := by
  obtain ⟨types, -, hbuild⟩ := Except.bind_eq_ok.1 hbuild
  cases hbuild
  rfl

/-- A plan is that of the object type of its name. -/
theorem Plans.get?_of_build {plans : Plans}
    (hbuild : Plans.build graph scalars = .ok plans) {typeName : String}
    {plan : TypePlan} (hget : plans.get? typeName = some plan) :
    ∃ t ∈ graph.ofKind .object, t.name = typeName ∧ planType graph scalars t = .ok plan := by
  obtain ⟨types, hmap, hbuild⟩ := Except.bind_eq_ok.1 hbuild
  cases hbuild
  obtain ⟨p, hp, heq⟩ := List.mem_map.1 (Table.mem_of_mem_ofList (Table.mem_of_get? hget))
  cases heq
  obtain ⟨t, ht, htype⟩ := exists_of_mem_forall₂ (forall₂_of_mapM hmap) hp
  exact ⟨t, ht, (planType_eq_ok htype).1.symm, htype⟩

/-- Every object type has a plan. -/
theorem Plans.exists_of_build (hfiled : graph.Filed) {plans : Plans}
    (hbuild : Plans.build graph scalars = .ok plans) {name : String} {t : TypeDefinition}
    (hget : graph.get? name = some t) (hkind : t.kind = .object) :
    ∃ plan, plans.get? name = some plan ∧ planType graph scalars t = .ok plan := by
  have hname := hfiled.name_of_get? hget
  have hmem : t ∈ graph.ofKind .object :=
    List.mem_filter.2 ⟨List.mem_map.2 ⟨_, Table.mem_of_get? hget, rfl⟩, decide_eq_true hkind⟩
  have hsome : ∃ plan, plans.get? name = some plan := by
    obtain ⟨types, hmap, heq⟩ := Except.bind_eq_ok.1 hbuild
    cases heq
    obtain ⟨plan, hplan, htype⟩ := exists_right_of_mem_forall₂ (forall₂_of_mapM hmap) hmem
    refine Option.ne_none_iff_exists'.1 fun hnone => ?_
    rw [Plans.get?, Table.get?_ofList, List.lookup_eq_none_iff] at hnone
    have hother := hnone (plan.name, plan) (List.mem_reverse.2 (List.mem_map_of_mem hplan))
    rw [(planType_eq_ok htype).1, hname, bne_self_eq_false] at hother
    cases hother
  obtain ⟨plan, hplan⟩ := hsome
  obtain ⟨other, hother, hothername, htype⟩ := Plans.get?_of_build hbuild hplan
  have hsame := hfiled.get?_name (List.mem_filter.1 hother).1
  rw [hothername, hget] at hsame
  obtain rfl := Option.some.inj hsame
  exact ⟨plan, hplan, htype⟩

/-- The fields of a plan are fields of its type. -/
theorem exists_definition (hfiled : graph.Filed) {name : String} {t : TypeDefinition} {plan : TypePlan}
    {field : FieldPlan} (htype : graph.get? name = some t) (hplan : planType graph scalars t = .ok plan)
    (hfield : field ∈ plan.fields) : ∃ definition, t.field? definition.wireName = some definition ∧
      planField graph scalars t.name definition = .ok (some field) := by
  obtain ⟨-, fields, heq, hall⟩ := planType_eq_ok hplan
  rw [heq, List.mem_filterMap] at hfield
  obtain ⟨field?, hmem, rfl⟩ := hfield
  obtain ⟨definition, hdefinition, hplanned⟩ := exists_of_mem_forall₂ hall hmem
  obtain ⟨e, hentry, rfl⟩ := List.mem_map.1 hdefinition
  have hfields := hfiled.type _ (Table.mem_of_get? htype)
  refine ⟨e.2, ?_, hplanned⟩
  rw [hfields.wireName e hentry]
  exact Table.get?_of_mem hfields.nodup hentry

theorem Plans.distinct_of_build {schema : Introspection.Schema} (hgraph : TypeGraph.build schema = .ok graph)
    {plans : Plans} (hbuild : Plans.build graph scalars = .ok plans) : plans.Distinct := by
  intro typeName plan hget
  obtain ⟨t, ht, -, hplan⟩ := Plans.get?_of_build hbuild hget
  obtain ⟨-, fields, heq, hall⟩ := planType_eq_ok hplan
  have hfiled := (TypeGraph.filed_of_build hgraph).filed_of_mem (List.mem_filter.1 ht).1
  rw [heq]
  exact hfiled.wireNames_nodup.sublist (names_sublist hall)

/-- The elements of a keyed list all have an id. -/
theorem hasId_of_keyed {element concrete : String} {t : TypeDefinition}
    (hkeyed : graph.isKeyed element = true)
    (hadmits : Admits graph element concrete) (hget : graph.get? concrete = some t) : t.hasId = true := by
  unfold TypeGraph.isKeyed at hkeyed
  cases helement : graph.get? element with
  | none => rw [helement] at hkeyed; cases hkeyed
  | some e =>
      rw [helement] at hkeyed
      rw [Admits, helement, Option.any_some, Option.any_some] at hadmits
      have hall : (e.possibleTypes.all fun p => (graph.get? p).any TypeDefinition.hasId) = true →
          e.isPossibleType concrete = true → t.hasId = true := by
        intro hall hpossible
        have hmem := List.all_eq_true.1 hall concrete (List.contains_iff_mem.1 hpossible)
        rwa [hget] at hmem
      cases hkind : e.kind <;> simp only [hkind] at hkeyed hadmits
      case object =>
        rw [if_neg (by decide)] at hadmits
        subst hadmits
        rw [helement, Option.some.injEq] at hget
        exact hget ▸ hkeyed
      case interface =>
        rw [if_pos (by decide)] at hadmits
        exact hall (Bool.and_eq_true_iff.1 hkeyed).2 hadmits
      case union =>
        rw [if_pos (by decide)] at hadmits
        exact hall (Bool.and_eq_true_iff.1 hkeyed).2 hadmits
      all_goals cases hkeyed

/-- What the field of the type `ID` is: it refers to objects if that is no leaf type. -/
def IdKind (graph : TypeGraph) (scalars : Registry) (kind : FieldKind) : Prop :=
  (graph.HasEnumId ∧ ∃ typeName members, kind = .leaf (.enum typeName members)) ∨
    (¬graph.HasEnumId ∧ ((∃ target, kind = .object target ∨ kind = .abstract target) ∨
      ∃ converter, scalars.find? "ID" = some converter ∧ kind = .leaf (.scalar converter)))

theorem idKind_of_leaf {leaf : Leaf} (hleaf : leafOf? graph scalars "ID" = some leaf) :
    IdKind graph scalars (.leaf leaf) := by
  have hscalar (hnot : ¬graph.HasEnumId) (hmap : (scalars.find? "ID").map Leaf.scalar = some leaf) :
      IdKind graph scalars (.leaf leaf) := by
    obtain ⟨c, hfind, rfl⟩ := Option.map_eq_some_iff.1 hmap
    exact .inr ⟨hnot, .inr ⟨c, hfind, rfl⟩⟩
  rw [leafOf?] at hleaf
  cases hget : graph.get? "ID" with
  | none =>
      rw [hget] at hleaf
      apply hscalar _ hleaf
      rintro ⟨t, ht, -⟩
      rw [hget] at ht
      cases ht
  | some t =>
      rw [hget] at hleaf
      dsimp only at hleaf
      by_cases henum : t.kind = .enum
      · rw [if_pos henum] at hleaf
        cases hleaf
        exact .inl ⟨⟨t, hget, henum⟩, _, _, rfl⟩
      · rw [if_neg henum] at hleaf
        apply hscalar _ hleaf
        rintro ⟨t', ht', henum'⟩
        rw [hget, Option.some.injEq] at ht'
        exact henum (ht' ▸ henum')

theorem idKind_of_planField {typeName : String} {definition : FieldDefinition} {field? : Option FieldPlan}
    (hdepth : definition.type.depth = 0) (htype : definition.type.typeName = "ID")
    (hplan : planField graph scalars typeName definition = .ok field?) :
    ∃ field, field? = some field ∧ IdKind graph scalars field.kind := by
  have henum : graph.IsComposite "ID" → ¬graph.HasEnumId := by
    rintro ⟨t, ht, hcomposite⟩ ⟨t', ht', hkind⟩
    rw [ht] at ht'
    cases ht'
    rw [hkind] at hcomposite
    cases hcomposite
  cases planned_of_planField hplan with
  | leaf _ _ hleaf => exact ⟨_, rfl, idKind_of_leaf (htype ▸ hleaf)⟩
  | object _ hcomposite => exact ⟨_, rfl, .inr ⟨henum (htype ▸ hcomposite), .inl ⟨_, .inl rfl⟩⟩⟩
  | abstract _ hseveral => exact ⟨_, rfl, .inr ⟨henum (htype ▸ hseveral.isComposite), .inl ⟨_, .inr rfl⟩⟩⟩
  | leafList hlist => rw [hdepth] at hlist; cases hlist
  | objectList hlist => rw [hdepth] at hlist; cases hlist
  | nested hnested => rw [hdepth] at hnested; cases hnested

/-- A planned list is keyed if its elements can be told apart. -/
theorem keyed_of_planField {typeName element : String} {definition : FieldDefinition} {field : FieldPlan}
    {isAbstract keyed : Bool} (hplan : planField graph scalars typeName definition = .ok (some field))
    (hkind : field.kind = .objectList element isAbstract keyed) : keyed = graph.isKeyed element := by
  cases planned_of_planField hplan <;> cases hkind
  rfl

/-- A planned list is for elements of several types if the type of its elements has several. -/
theorem isAbstract_of_planField {typeName element : String} {definition : FieldDefinition} {field : FieldPlan}
    {isAbstract keyed : Bool} (hplan : planField graph scalars typeName definition = .ok (some field))
    (hkind : field.kind = .objectList element isAbstract keyed) :
    isAbstract = true ↔ graph.IsAbstract element := by
  cases planned_of_planField hplan with
  | objectList _ _ habstract =>
      cases hkind
      exact habstract
  | _ => cases hkind

/-- Every field of a plan came about by planning one. -/
theorem Plans.exists_planField {plans : Plans}
    (hbuild : Plans.build graph scalars = .ok plans) {typeName : String}
    {plan : TypePlan} {field : FieldPlan} (hget : plans.get? typeName = some plan)
    (hfield : field ∈ plan.fields) :
    ∃ name definition, planField graph scalars name definition = .ok (some field) := by
  obtain ⟨t, -, -, hplan⟩ := Plans.get?_of_build hbuild hget
  obtain ⟨-, fields, heq, hall⟩ := planType_eq_ok hplan
  rw [heq, List.mem_filterMap] at hfield
  obtain ⟨field?, hmem, rfl⟩ := hfield
  obtain ⟨definition, -, hdefinition⟩ := exists_of_mem_forall₂ hall hmem
  exact ⟨t.name, definition, hdefinition⟩

theorem Plans.keyed_of_build {plans : Plans} (hbuild : Plans.build graph scalars = .ok plans)
    {typeName element : String} {plan : TypePlan} {field : FieldPlan} {isAbstract keyed : Bool}
    (hget : plans.get? typeName = some plan) (hfield : field ∈ plan.fields)
    (hkind : field.kind = .objectList element isAbstract keyed) : keyed = graph.isKeyed element := by
  obtain ⟨name, definition, hplanned⟩ := Plans.exists_planField hbuild hget hfield
  exact keyed_of_planField hplanned hkind

/-- The elements of a keyed list have a field `id` of the type `ID`. -/
theorem Plans.idKind_of_build {schema : Introspection.Schema} (hgraph : TypeGraph.build schema = .ok graph)
    {plans : Plans} (hbuild : Plans.build graph scalars = .ok plans) {element concrete : String}
    {plan : TypePlan} (hkeyed : graph.isKeyed element = true) (hadmits : Admits graph element concrete)
    (hget : plans.get? concrete = some plan) :
    ∃ field ∈ plan.fields, field.wireName = Instance.idField ∧ IdKind graph scalars field.kind := by
  obtain ⟨t, ht, rfl, hplan⟩ := Plans.get?_of_build hbuild hget
  have hfiled := TypeGraph.filed_of_build hgraph
  have hmem := (List.mem_filter.1 ht).1
  have hid := hasId_of_keyed hkeyed hadmits (hfiled.get?_name hmem)
  obtain ⟨definition, hdefinition, hname, hdepth, htype⟩ := (hfiled.filed_of_mem hmem).id_of_hasId hid
  obtain ⟨-, fields, heq, hall⟩ := planType_eq_ok hplan
  obtain ⟨field?, hfield, hplanned⟩ := exists_of_mem_forall₂ hall.flip hdefinition
  obtain ⟨field, rfl, hkind⟩ := idKind_of_planField hdepth htype hplanned
  rw [heq]
  exact ⟨field, List.mem_filterMap.2 ⟨some field, hfield, rfl⟩,
    (wireName_of_planField hplanned).trans hname, hkind⟩

section Sample

open Introspection (Declaration Reference)

def sampleField (name : String) (type : Reference) : Introspection.Field :=
  ⟨name, none, [], type, false, none⟩

def sampleObject (name : String) (fields : List Introspection.Field) : Declaration :=
  { Declaration.bare .object name with fields := some fields }

/-- Users that have ids, and further declarations. -/
def sampleSchema (further : List Declaration) : Introspection.Schema :=
  let named (name : String) : Reference := .mk .object (some name) none
  ⟨none, none, none,
    [sampleObject "Query" [sampleField "title" (named "String"),
        sampleField "users" (.mk .list none (some (named "User")))],
      sampleObject "User" [sampleField "id" (named "ID"), sampleField "name" (named "String")]] ++ further⟩

def sampleGraph (further : List Declaration) : TypeGraph :=
  match TypeGraph.build (sampleSchema further) with
  | .ok graph => graph
  | .error _ => ⟨.empty, "", none, none⟩

def samplePlans (further : List Declaration) : Plans :=
  match Plans.build (sampleGraph further) .standard with
  | .ok plans => plans
  | .error _ => ⟨sampleGraph further, .standard, .empty⟩

theorem build_sampleSchema : TypeGraph.build (sampleSchema []) = .ok (sampleGraph []) := rfl

theorem build_samplePlans : Plans.build (sampleGraph []) .standard = .ok (samplePlans []) := rfl

/-- A heap with a query object that is still empty. -/
def sampleHeap : Heap := (Heap.empty.newObject "Query").2

theorem reached_sampleHeap (plans : Plans) : Reached plans sampleHeap := .newObject "Query" .empty

theorem hasObject_sampleHeap : sampleHeap.HasObject ⟨0⟩ := Nat.zero_lt_one

def userData (id name : String) : Json := .object [("id", .string id), ("name", .string name)]

def pageData (title : String) (users : List Json) : Json :=
  .object [("title", .string title), ("users", .array users)]

/-- The heap in which the query object has a title and two users. -/
def grownHeap : Heap :=
  (outcome (patch (samplePlans []) (pageData "Home" [userData "a" "Ann", userData "b" "Ben"])
    ⟨0⟩) sampleHeap).2.1

theorem reached_grownHeap : Reached (samplePlans []) grownHeap :=
  .patch _ (reached_sampleHeap _) hasObject_sampleHeap

theorem hasObject_grownHeap : grownHeap.HasObject ⟨0⟩ :=
  (writes_patch _ _ _ _).evolves.objects hasObject_sampleHeap

/-- Another page: the first user is gone, the second one has another name, and a new one comes.
Any more users follow these. -/
def newsData (more : List Json) : Json := pageData "News" ([userData "b" "Bob", userData "c" "Cy"] ++ more)

end Sample

end GraphClient.Live
