import GraphClient.Proofs.Live.Refinement
import GraphClient.Proofs.Live.Settled
import GraphClient.Proofs.Operation.Typing

/-! Responses that conform to a schema. Null stands only where the type admits it, lists are arrays,
and an object has what is selected for its object type, of the types that are declared there
(`Conforms`). Patching with such data does not fail, as long as lists of objects have no null among
their items (`patch_conforming`). The name of the object type is part of an object that may be of
several, so nothing has to be known of whether it was selected. -/

namespace GraphClient

namespace Selected

/-- What is selected for objects of a type: what is selected from every object, and from those of the type. -/
def applying (concrete : String) (selections : List Selected) : List Selected :=
  selections.flatMap fun s => s :: (s.variant? concrete).toList

/-- What is selected from a field. -/
def under (wireName : String) (selections : List Selected) : List Selected :=
  selections.filterMap fun s => (s.field? wireName).bind SelectedField.selection

/-- That a field is selected. -/
def Selects (selections : List Selected) (wireName : String) : Prop :=
  wireName ∈ selections.flatMap fun s => s.fieldEntries.map (·.1)

/-- That the name of the object type is selected. -/
def SelectsTypename (selections : List Selected) : Prop := ∃ s ∈ selections, s.typenameSelected = true

end Selected

namespace Live

/-- That an object has the members that are selected for its object type, and tells that type if it is
selected or objects of the declared type may be of several. -/
structure Members (graph : TypeGraph) (name concrete : String) (selections : List Selected)
    (data : Json) : Prop where
  keys : ∀ key, (data.get? key).isSome ↔ Selected.Selects selections key ∨
    (key = typeNameField ∧ (graph.IsAbstract name ∨ Selected.SelectsTypename selections))
  typename : graph.IsAbstract name ∨ Selected.SelectsTypename selections →
    data.get? typeNameField = some (.string concrete)

/-- That data conforms to a type, along what is selected from it. `also` is what else is asked of the
data of a field, by its type. -/
inductive Conforms (graph : TypeGraph) (also : TypeRef → Json → Prop) : TypeRef → List Selected → Json → Prop
  | null {type : TypeRef} {selections : List Selected} (hnullable : type.nullable = true) :
      Conforms graph also type selections .null
  | leaf {nullable : Bool} {name : String} {selections : List Selected} {data : Json}
      (hleaf : ¬graph.IsComposite name)
      (hdata : data ≠ .null) : Conforms graph also (.named nullable name) selections data
  | list {nullable : Bool} {item : TypeRef} {selections : List Selected} {items : List Json}
      (hitems : ∀ d ∈ items, Conforms graph also item selections d) :
      Conforms graph also (.list nullable item) selections (.array items)
  | object {nullable : Bool} {name concrete : String} {t : TypeDefinition} {selections : List Selected}
      {members : List (String × Json)} (hadmits : Admits graph name concrete)
      (htype : graph.get? concrete = some t) (hkind : t.kind = .object)
      (hmembers : Members graph name concrete (Selected.applying concrete selections) (.object members))
      (halso : ∀ key definition d, t.field? key = some definition → (Json.object members).get? key = some d →
        also definition.type d)
      (hfields : ∀ key definition d, t.field? key = some definition →
        (Json.object members).get? key = some d →
        Conforms graph also definition.type (Selected.under key (Selected.applying concrete selections)) d) :
      Conforms graph also (.named nullable name) selections (.object members)

/-- That a list of objects has no null among its items. -/
def Gapless (graph : TypeGraph) (type : TypeRef) (data : Json) : Prop :=
  graph.IsComposite type.typeName → type.depth = 1 → ∀ items, data = .array items → Json.null ∉ items

section

variable {graph : TypeGraph} {scalars : Registry} {plans : Plans}

/-- That data is for objects of a type, and can be merged into those of its object type. -/
def Merging (plans : Plans) (name : String) (data : Json) : Prop :=
  ∃ concrete, concreteElement plans.graph name data = .ok concrete ∧
    ∀ tree, tree.typeName? = some concrete → ∃ tree', merge plans data tree = .ok tree'

theorem exists_mergeEntries {element : String} {items : List Json}
    (hitems : ∀ d ∈ items, Merging plans element d)
    (keyed : Bool) (old : List Snapshot) (position : Nat) (earlier : List String) :
    ∃ trees, mergeEntries plans.graph element keyed old items (fun d _ => merge plans d) position earlier =
      .ok trees := by
  induction items generalizing position earlier with
  | nil => exact ⟨[], rfl⟩
  | cons data rest ih =>
      obtain ⟨concrete, hconcrete, hmerge⟩ := hitems data List.mem_cons_self
      obtain ⟨tree, htree⟩ := hmerge _ (getD_matchingTree old keyed earlier position concrete data).1
      obtain ⟨trees, htrees⟩ := ih (fun d hd => hitems d (List.mem_cons_of_mem _ hd)) (position + 1)
        ((wireId? data).toList ++ earlier)
      refine ⟨tree :: trees, ?_⟩
      rw [mergeEntries_cons hconcrete, htree, Except.bind, htrees]
      rfl

theorem demand_null {field : FieldPlan} (hnullable : field.nullable = true) (graph : TypeGraph)
    (typeName : String) :
    ∃ slot, demand graph typeName field .null = .store slot := by
  obtain ⟨name, wireName, kind, nullable, isId⟩ := field
  cases hnullable
  cases kind <;> exact ⟨_, rfl⟩

theorem any_isAbstract {graph : TypeGraph} {name : String} :
    (graph.get? name).any (·.kind.isAbstract) = true ↔ graph.IsAbstract name := by
  rw [Option.any_eq_true, TypeGraph.IsAbstract]

/-- An object tells its object type where it has to. -/
theorem Members.concreteElement {name concrete : String} {selections : List Selected}
    {members : List (String × Json)} (h : Members graph name concrete selections (.object members))
    (hadmits : Admits graph name concrete) :
    Live.concreteElement graph name (.object members) = .ok concrete := by
  rw [Admits] at hadmits
  rw [Live.concreteElement]
  split at hadmits
  · rename_i habstract
    rw [if_pos habstract, concreteType, h.typename (.inl (any_isAbstract.1 habstract)),
      Option.bind_some, Json.string?]
    exact if_pos hadmits
  · rename_i habstract
    rw [if_neg habstract, hadmits]

theorem Conforms.nullable {also : TypeRef → Json → Prop} {type : TypeRef} {selections : List Selected}
    (h : Conforms graph also type selections .null) : type.nullable = true := by
  cases h with
  | null hnullable => exact hnullable
  | leaf _ hdata => exact absurd rfl hdata

/-- Data for a single value. -/
theorem Conforms.of_depth_zero {also : TypeRef → Json → Prop} {type : TypeRef}
    {selections : List Selected} {data : Json}
    (h : Conforms graph also type selections data) (hdepth : type.depth = 0) :
    ∃ nullable, Conforms graph also (.named nullable type.typeName) selections data := by
  cases type with
  | named nullable name => exact ⟨nullable, h⟩
  | list => cases hdepth

/-- Data for a list of single values. -/
theorem Conforms.of_depth_one {also : TypeRef → Json → Prop} {type : TypeRef}
    {selections : List Selected} {data : Json}
    (h : Conforms graph also type selections data) (hdepth : type.depth = 1) (hdata : data ≠ .null) :
    ∃ items nullable, data = .array items ∧
      ∀ d ∈ items, Conforms graph also (.named nullable type.typeName) selections d := by
  cases h with
  | null => exact absurd rfl hdata
  | leaf => cases hdepth
  | object => cases hdepth
  | @list _ item _ items hitems =>
      cases item with
      | named nullable name => exact ⟨items, nullable, rfl, hitems⟩
      | list => cases hdepth

theorem eq_object_of_concrete {graph : TypeGraph} {name concrete : String} {data : Json}
    (h : concreteElement graph name data = .ok concrete) : ∃ members, data = .object members := by
  cases data with
  | object members => exact ⟨members, rfl⟩
  | _ => cases h

/-- **The data of a planned field is merged** if it conforms to the type of the field, and what it
holds for objects can be merged into these. -/
theorem exists_mergeField {typeName : String} {definition : FieldDefinition} {selections : List Selected}
    {field : FieldPlan} {data : Json} (hplanned : Planned plans.graph scalars definition (some field))
    (hconforms : Conforms plans.graph (Gapless plans.graph) definition.type selections data)
    (hgapless : Gapless plans.graph definition.type data)
    (hinner : ∀ nullable selections d, sizeOf d ≤ sizeOf data → d ≠ .null →
      plans.graph.IsComposite definition.type.typeName →
      Conforms plans.graph (Gapless plans.graph) (.named nullable definition.type.typeName) selections d →
      Merging plans definition.type.typeName d) (fields : Table Snapshot) :
    ∃ fields', mergeField plans.graph typeName field data (fun d _ => merge plans d) fields =
      .ok fields' := by
  have hfill : ∀ {concrete}, demand plans.graph typeName field data = .fill concrete →
      (∀ tree, tree.typeName? = some concrete → ∃ tree', merge plans data tree = .ok tree') →
      ∃ fields', mergeField plans.graph typeName field data (fun d _ => merge plans d) fields =
        .ok fields' := by
    intro concrete hdemand hmerge
    obtain ⟨tree, htree⟩ := hmerge _ (@typeName?_kept fields field.wireName concrete data)
    exact ⟨_, (mergeField_of_fill hdemand).trans (congrArg (Except.map _) htree)⟩
  by_cases hdata : data = .null
  · subst hdata
    have hnullable : definition.type.nullable = true := hconforms.nullable
    have hfield : field.nullable = true := by cases hplanned <;> exact hnullable
    obtain ⟨slot, hdemand⟩ := demand_null hfield plans.graph typeName
    exact ⟨_, mergeField_of_store hdemand⟩
  cases hplanned with
  | leaf => exact ⟨_, mergeField_of_store (demand_leaf rfl _ _ _)⟩
  | leafList hdepth =>
      obtain ⟨items, -, rfl, -⟩ := hconforms.of_depth_one hdepth hdata
      exact ⟨_, mergeField_of_store rfl⟩
  | object hdepth hcomposite hone =>
      obtain ⟨nullable, hnamed⟩ := hconforms.of_depth_zero hdepth
      obtain ⟨concrete, hconcrete, hmerge⟩ := hinner nullable _ _ (Nat.le_refl _) hdata hcomposite hnamed
      obtain ⟨members, rfl⟩ := eq_object_of_concrete hconcrete
      rw [concreteElement, if_neg fun h => hone (any_isAbstract.1 h)] at hconcrete
      cases hconcrete
      exact hfill rfl hmerge
  | abstract hdepth hseveral =>
      obtain ⟨nullable, hnamed⟩ := hconforms.of_depth_zero hdepth
      obtain ⟨concrete, hconcrete, hmerge⟩ :=
        hinner nullable _ _ (Nat.le_refl _) hdata hseveral.isComposite hnamed
      obtain ⟨members, rfl⟩ := eq_object_of_concrete hconcrete
      rw [concreteElement, if_pos (any_isAbstract.2 hseveral)] at hconcrete
      refine hfill ?_ hmerge
      simp only [demand, plannedAs, hconcrete]
  | objectList hdepth hcomposite =>
      obtain ⟨items, nullable, rfl, hitems⟩ := hconforms.of_depth_one hdepth hdata
      have hnull := hgapless hcomposite hdepth items rfl
      have hmerging : ∀ d ∈ items, Merging plans definition.type.typeName d := fun d hd =>
        hinner nullable selections d (Nat.le_of_lt (Json.sizeOf_item_lt hd))
          (fun h => hnull (h ▸ hd)) hcomposite
          (hitems d hd)
      obtain ⟨trees, htrees⟩ :=
        exists_mergeEntries hmerging _ (Snapshot.itemsAt fields definition.wireName) 0 []
      exact ⟨_, (mergeField_of_arrange rfl).trans (congrArg (Except.map _) htrees)⟩

theorem exists_mergeFields {typeName : String} {data : Json} {plan : List FieldPlan}
    (hfields : ∀ field ∈ plan, ∀ d, data.get? field.wireName = some d → ∀ fields,
      ∃ fields', mergeField plans.graph typeName field d (fun d _ => merge plans d) fields = .ok fields')
    (fields : Table Snapshot) :
    ∃ fields', mergeFields plans.graph typeName data (fun d _ => merge plans d) plan fields =
      .ok fields' := by
  induction plan generalizing fields with
  | nil => exact ⟨fields, rfl⟩
  | cons first rest ih =>
      have hrest := fun fields =>
        ih (fun field hfield => hfields field (List.mem_cons_of_mem _ hfield)) fields
      rw [mergeFields]
      split
      · exact hrest fields
      · rename_i d hget
        obtain ⟨middle, hfirst⟩ := hfields first List.mem_cons_self d hget fields
        obtain ⟨fields', hlater⟩ := hrest middle
        exact ⟨fields', (congrArg (· >>= _) hfirst).trans hlater⟩

/-- **Data that conforms is merged into objects of its type**, whatever these hold. -/
theorem merging_of_conforms (hfiled : graph.Filed)
    (hplans : Plans.build graph scalars = .ok plans) (data : Json) :
    ∀ {nullable : Bool} {name : String} {selections : List Selected}, data ≠ .null →
    plans.graph.IsComposite name →
      Conforms plans.graph (Gapless plans.graph) (.named nullable name) selections data →
      Merging plans name data := by
  obtain rfl := Plans.graph_of_build hplans
  induction hsize : sizeOf data using Nat.strong_induction_on generalizing data with
  | _ size ih =>
      intro nullable name selections hdata hcomposite hconforms
      cases hconforms with
      | null => exact absurd rfl hdata
      | leaf hleaf => exact absurd hcomposite hleaf
      | @object _ _ concrete t _ members hadmits htype hkind hmembers halso hfields =>
          refine ⟨concrete, hmembers.concreteElement hadmits, fun tree htree => ?_⟩
          obtain ⟨plan, hplan, hplanned⟩ := Plans.exists_of_build hfiled hplans htype hkind
          cases tree with
          | object own fields =>
              cases htree
              have hfield : ∀ field ∈ plan.fields, ∀ d,
                  (Json.object members).get? field.wireName = some d → ∀ fields,
                  ∃ fields', mergeField plans.graph concrete field d
                    (fun d _ => merge plans d) fields = .ok fields' := by
                intro field hfield d hget
                obtain ⟨definition, hdefinition, hplanned⟩ := exists_definition hfiled htype hplanned hfield
                rw [wireName_of_planField hplanned] at hget
                refine exists_mergeField (planned_of_planField hplanned) (hfields _ _ _ hdefinition hget)
                  (halso _ _ _ hdefinition hget) ?_
                intro nullable selections inside hle hinside hcomposite hconforms
                exact ih _ (Nat.lt_of_le_of_lt hle (hsize ▸ Json.sizeOf_get?_lt hget)) inside
                  rfl hinside hcomposite
                  hconforms
              obtain ⟨fields', hmerged⟩ := exists_mergeFields hfield fields
              refine ⟨.object concrete fields', ?_⟩
              rw [merge, mergeWith, hplan]
              exact congrArg (· >>= _) hmerged
          | _ => cases htree

end

section Feed

theorem mem_of_get? {members : List (String × Json)} {key : String} {d : Json}
    (h : (Json.object members).get? key = some d) : (key, d) ∈ members :=
  @Table.mem_of_get? Json ⟨members⟩ key d h

theorem isSome_get?_iff {members : List (String × Json)} {key : String} :
    ((Json.object members).get? key).isSome ↔ key ∈ members.map (·.1) := by
  rw [← Option.ne_none_iff_isSome, Json.get?, ne_eq, Selected.lookup_eq_none_iff, Classical.not_not]

def feedPlans : Plans :=
  match Plans.build feedGraph .standard with
  | .ok plans => plans
  | .error _ => ⟨feedGraph, .standard, .empty⟩

theorem build_feedPlans : Plans.build feedGraph .standard = .ok feedPlans := rfl

def feedData (items : List Json) : Json := .object [("feed", .array items)]

def feedUser : Json := .object [("__typename", .string "User"), ("id", .string "1"), ("name", .string "Ann")]

/-- What is selected from the items of the feed. -/
def feedSelections : List Selected :=
  Selected.under "feed" (Selected.applying "Query" [feedOperation.selection])

theorem feedData_conforms {also : TypeRef → Json → Prop} {items : List Json}
    (halso : also (.list true (.named true "Node")) (.array items))
    (hitems : ∀ d ∈ items, Conforms feedGraph also (.named true "Node") feedSelections d) :
    Conforms feedGraph also (.named false "Query") [feedOperation.selection] (feedData items) := by
  have hfield : ∀ {t : TypeDefinition} {key : String} {definition : FieldDefinition} {d : Json},
      feedGraph.get? "Query" = some t → t.field? key = some definition → (feedData items).get? key = some d →
        key = "feed" ∧ definition.type = .list true (.named true "Node") ∧ d = .array items := by
    intro t key definition d ht hdefinition hd
    obtain ⟨rfl, rfl⟩ := Gathers.lookup_singleton hd
    cases ht
    cases hdefinition
    exact ⟨rfl, rfl, rfl⟩
  have htypename : ¬(feedGraph.IsAbstract "Query" ∨
      Selected.SelectsTypename (Selected.applying "Query" [feedOperation.selection])) := by
    rintro (habstract | ⟨s, hs, hselected⟩)
    · exact TypeGraph.IsObject.not_isAbstract ⟨_, rfl, rfl⟩ habstract
    · obtain rfl := List.mem_singleton.1 hs
      cases hselected
  refine .object (rfl : Admits feedGraph "Query" "Query") rfl rfl ⟨fun key => ?_,
    fun h => absurd h htypename⟩ ?_ ?_
  · rw [isSome_get?_iff, or_iff_left fun h => htypename h.2]
    exact Iff.rfl
  · intro key definition d hdefinition hd
    obtain ⟨-, htype, rfl⟩ := hfield rfl hdefinition hd
    exact htype ▸ halso
  · intro key definition d hdefinition hd
    obtain ⟨rfl, htype, rfl⟩ := hfield rfl hdefinition hd
    exact htype ▸ .list hitems

theorem feedText_conforms {nullable : Bool} {name : String}
    (hkind : (feedGraph.get? name).map (·.kind) = some .scalar) (selections : List Selected) (text : String) :
    Conforms feedGraph (Gapless feedGraph) (.named nullable name) selections (.string text) := by
  refine .leaf ?_ nofun
  rintro ⟨t, ht, hcomposite⟩
  rw [ht, Option.map_some, Option.some.injEq] at hkind
  rw [hkind] at hcomposite
  cases hcomposite

theorem feedUser_conforms :
    Conforms feedGraph (Gapless feedGraph) (.named true "Node") feedSelections feedUser := by
  have habstract : feedGraph.IsAbstract "Node" := ⟨_, rfl, rfl⟩
  have hfield : ∀ {t : TypeDefinition} {key : String} {definition : FieldDefinition} {d : Json},
      feedGraph.get? "User" = some t → t.field? key = some definition → feedUser.get? key = some d →
        ∃ nullable name text, definition.type = .named nullable name ∧ d = .string text ∧
          (feedGraph.get? name).map (·.kind) = some .scalar := by
    intro t key definition d ht hdefinition hd
    have hmem := mem_of_get? hd
    simp only [List.mem_cons, List.not_mem_nil, or_false, Prod.mk.injEq] at hmem
    cases ht
    rcases hmem with ⟨rfl, rfl⟩ | ⟨rfl, rfl⟩ | ⟨rfl, rfl⟩ <;> cases hdefinition
    · exact ⟨_, _, _, rfl, rfl, rfl⟩
    · exact ⟨_, _, _, rfl, rfl, rfl⟩
  refine .object (rfl : Admits feedGraph "Node" "User") rfl rfl ⟨fun key => ?_, fun _ => rfl⟩ ?_ ?_
  · rw [isSome_get?_iff, and_iff_left (.inl habstract)]
    change key ∈ ["__typename", "id", "name"] ↔ key ∈ ["id", "name"] ∨ key = "__typename"
    rw [List.mem_cons, or_comm]
  · intro key definition d hdefinition hd hcomposite hdepth
    obtain ⟨_, _, _, htype, -⟩ := hfield rfl hdefinition hd
    rw [htype] at hdepth
    cases hdepth
  · intro key definition d hdefinition hd
    obtain ⟨_, _, _, htype, rfl, hkind⟩ := hfield rfl hdefinition hd
    exact htype ▸ feedText_conforms hkind _ _

/-- The type of a node is selected. -/
theorem feed_selectsTypename {s : Selected} (hs : feedOperation.selection.Reaches s)
    (habstract : feedGraph.IsAbstract s.typeName) : s.typenameSelected = true := by
  let user : Selected := .mk "User" [("name", .mk "name" "name" none)] false []
  let post : Selected := .mk "Post" [("author", .mk "author" "author" (some user))] false []
  let node : Selected := .mk "Node" [("id", .mk "id" "id" none)] true [("User", user), ("Post", post)]
  have hall : s = feedOperation.selection ∨ s = node ∨ s = post ∨ s = user := by
    clear habstract
    induction hs with
    | self => exact .inl rfl
    | field _ hfield hselection ih =>
        rcases ih with rfl | rfl | rfl | rfl <;> cases List.mem_singleton.1 hfield <;> cases hselection
        · exact .inr (.inl rfl)
        · exact .inr (.inr (.inr rfl))
    | variant _ hvariant ih =>
        rcases ih with rfl | rfl | rfl | rfl
        · cases hvariant
        · rcases List.mem_pair.1 hvariant with h | h <;> cases h
          · exact .inr (.inr (.inr rfl))
          · exact .inr (.inr (.inl rfl))
        · cases hvariant
        · cases hvariant
  have hobject : ∀ {name}, feedGraph.IsObject name → s.typeName ≠ name := fun h heq =>
    h.not_isAbstract (heq ▸ habstract)
  rcases hall with rfl | rfl | rfl | rfl
  · exact absurd rfl (hobject ⟨_, rfl, rfl⟩)
  · rfl
  · exact absurd rfl (hobject ⟨_, rfl, rfl⟩)
  · exact absurd rfl (hobject ⟨_, rfl, rfl⟩)

end Feed

/-- **Bound operations do not go wrong.** Data that conforms to the schema along what an operation
selects is patched into every object of the root type without an error, if its lists of objects
have no null among their items. -/
theorem patch_conforming {schema : Introspection.Schema} {graph : TypeGraph}
    {scalars : Registry} {plans : Plans}
    {source : String} {ops : List Operation} {op : Operation} (hgraph : TypeGraph.build schema = .ok graph)
    (hplans : Plans.build graph scalars = .ok plans) (hbind : bind graph source = .ok ops) (hop : op ∈ ops)
    {h : Heap} {o : ObjectId} (hreached : Reached plans h) (ho : h.HasObject o)
    (htype : (h.object o).typeName = op.rootType) {data : Json}
    (hconforms : Conforms graph (Gapless graph) (.named false op.rootType) [op.selection] data) :
    ∃ changes h' q, outcome (patch plans data o) h = (.ok changes, h', q) := by
  obtain ⟨definition, -, asked, hanswers⟩ := exists_of_mem_forall₂ (answers_of_bind hbind) hop
  have hobject := (TypeGraph.grounded_of_build hgraph).root _ _ hanswers.root
  obtain ⟨result, h', q, hrun, hmerge, hsnapshot, -⟩ := patch_refines_merge hgraph hplans hreached ho data
  have hdata : data ≠ .null := by
    rintro rfl
    cases hconforms with
    | null hnull => cases hnull
    | leaf _ hdata => exact hdata rfl
  obtain rfl := Plans.graph_of_build hplans
  obtain ⟨concrete, hconcrete, hmerges⟩ :=
    merging_of_conforms (TypeGraph.filed_of_build hgraph) hplans data hdata
    hobject.isComposite hconforms
  have hroot : concrete = op.rootType := by
    have hadmits := admits_of_concreteElement hconcrete
    rwa [Admits, if_neg fun h => hobject.not_isAbstract (any_isAbstract.1 h)] at hadmits
  obtain ⟨tree, htree⟩ := hmerges (h.snapshot o) (by rw [hsnapshot, hroot, ← htype]; rfl)
  rw [htree] at hmerge
  cases result with
  | error => cases hmerge
  | ok changes => exact ⟨changes, h', q, hrun⟩

theorem patch_feed_conforming : Reached feedPlans sampleHeap ∧ sampleHeap.HasObject ⟨0⟩ ∧
    Conforms feedGraph (Gapless feedGraph) (.named false "Query") [feedOperation.selection]
      (feedData [feedUser]) ∧
      ∃ changes h' q, outcome (patch feedPlans (feedData [feedUser]) ⟨0⟩) sampleHeap =
        (.ok changes, h', q) := by
  have hconforms : Conforms feedGraph (Gapless feedGraph) (.named false "Query") [feedOperation.selection]
      (feedData [feedUser]) := by
    refine feedData_conforms (fun _ _ items heq => ?_) fun d hd => List.mem_singleton.1 hd ▸ feedUser_conforms
    cases heq
    exact fun h => by cases List.mem_singleton.1 h
  exact ⟨reached_sampleHeap _, hasObject_sampleHeap, hconforms,
    patch_conforming build_feedSchema build_feedPlans bind_feedDocument (List.mem_singleton_self _)
      (reached_sampleHeap _) hasObject_sampleHeap rfl hconforms⟩

/-- A list of objects cannot hold null, also where the schema admits it. -/
theorem not_patch_conforming :
    ¬∀ {schema : Introspection.Schema} {graph : TypeGraph} {scalars : Registry}
      {plans : Plans} {source : String}
      {ops : List Operation} {op : Operation} {data : Json}, TypeGraph.build schema = .ok graph →
      Plans.build graph scalars = .ok plans → bind graph source = .ok ops → op ∈ ops →
      (∀ s, op.selection.Reaches s → graph.IsAbstract s.typeName → s.typenameSelected = true) →
      Conforms graph (fun _ _ => True) (.named false op.rootType) [op.selection] data →
        ∃ changes h' q, outcome (patch plans data (Heap.empty.newObject op.rootType).1)
          (Heap.empty.newObject op.rootType).2 = (.ok changes, h', q) := by
  intro hall
  have hrun : (outcome (patch feedPlans (feedData [.null]) ⟨0⟩) sampleHeap).1 =
      .error (.expectedObject "Node") := by
    decide +kernel
  obtain ⟨changes, h', q, hok⟩ :=
    hall build_feedSchema build_feedPlans bind_feedDocument (List.mem_singleton_self _)
    (fun _ => feed_selectsTypename)
      (feedData_conforms trivial fun d hd => List.mem_singleton.1 hd ▸ .null rfl)
  cases hrun.symm.trans (congrArg (·.1) hok)

end Live

end GraphClient
