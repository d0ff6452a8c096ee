import GraphClient.Proofs.Live.Plans

/-! What objects hold. Whatever was written, and whether or not writing it came to an end, a stored
field is one that the plan of the type has, and it holds what its kind says: values that the leaf
gives, an object that was made and is of a right type, or a list that was made for the right elements
and has only such (`stores_of_reached`). So whoever reads an object by its plan finds what the plan
says, or null where null is admitted. -/

namespace GraphClient

theorem StandardScalar.read_ne_null (scalar : StandardScalar) (data : Json) :
    scalar.read data ≠ .ok .null := by
  intro hread
  cases scalar <;> simp only [read] at hread
  case string | int | float | boolean | id => split at hread <;> cases hread
  all_goals
    obtain ⟨value, -, heq⟩ := Except.map_eq_ok.1 hread
    cases heq

namespace Live

/-- No leaf reads a value as null. -/
theorem Leaf.convert_ne_null (leaf : Leaf) (data : Json) : leaf.convert data ≠ .ok .null := by
  intro hread
  cases leaf with
  | enum typeName members =>
      cases data with
      | string s =>
          rw [convert] at hread
          split at hread <;> cases hread
      | _ => cases hread
  | scalar c =>
      rw [convert_scalar_eq_ok] at hread
      exact StandardScalar.read_ne_null _ _ hread

/-- Null is a value of a leaf only if it stands in for values that the leaf does not read. -/
theorem Leaf.default_of_gives_null {leaf : Leaf} (hgives : leaf.Gives .null) : leaf.default = .null :=
  hgives.elim Eq.symm fun ⟨data, hread⟩ => absurd hread (leaf.convert_ne_null data)

/-- That a field holds what its kind says, or null if that is admitted. -/
def FieldPlan.Stores (graph : TypeGraph) (h : Heap) (field : FieldPlan) (s : Slot) : Prop :=
  s = .null ∧ field.nullable = true ∨
    match field.kind with
    | .leaf leaf => ∃ v, s = .scalar v ∧ leaf.Gives v
    | .leafList leaf itemNullable => ∃ vs, s = .scalars vs ∧ (∀ v ∈ vs, leaf.Gives v ∨ v = .null) ∧
        (.null ∈ vs → itemNullable = true ∨ leaf.default = .null)
    | .object target => ∃ x, s = .object x ∧ h.HasObject x ∧ (h.object x).typeName = target
    | .abstract target => ∃ x t, s = .object x ∧ h.HasObject x ∧ graph.get? target = some t ∧
        (h.object x).typeName ∈ t.possibleTypes
    | .objectList element _ keyed => ∃ l, s = .list l ∧ h.HasList l ∧ (h.list l).elementType = element ∧
        (h.list l).keyed = keyed ∧ ∀ x ∈ (h.list l).items, h.HasObject x ∧ ((h.object x).typeName = element ∨
          ∃ t, graph.get? element = some t ∧ (h.object x).typeName ∈ t.possibleTypes)

variable {plans : Plans} {h : Heap}

/-- Where fields have different names, a field is found under its own. -/
theorem TypePlan.field?_of_mem {plan : TypePlan}
    (hnodup : (plan.fields.map (·.wireName)).Nodup) {field : FieldPlan}
    (hfield : field ∈ plan.fields) : plan.field? field.wireName = some field := by
  have hsome : (plan.field? field.wireName).isSome := List.find?_isSome.2 ⟨field, hfield, beq_self_eq_true _⟩
  obtain ⟨other, hfind⟩ := Option.isSome_iff_exists.1 hsome
  have hfound := List.find?_some hfind
  have hname : other.wireName = field.wireName := eq_of_beq hfound
  rw [hfind, List.inj_on_of_nodup_map hnodup (List.mem_of_find?_eq_some hfind) hfield hname]

theorem possible_of_any {graph : TypeGraph} {target typeName : String}
    (hpossible : (graph.get? target).any (·.isPossibleType typeName) = true) :
    ∃ t, graph.get? target = some t ∧ typeName ∈ t.possibleTypes := by
  obtain ⟨t, ht, hmem⟩ := (Option.any_eq_true ..).1 hpossible
  exact ⟨t, ht, List.contains_iff_mem.1 hmem⟩

/-- An element of a list is of its type or of one of the object types of that. -/
theorem Admits.element {graph : TypeGraph} {element typeName : String}
    (hadmits : Admits graph element typeName) :
    typeName = element ∨ ∃ t, graph.get? element = some t ∧ typeName ∈ t.possibleTypes := by
  unfold Admits at hadmits
  split at hadmits
  · exact .inr (possible_of_any hadmits)
  · exact .inl hadmits

/-- What fits a field in a sound heap is what the kind of the field says. -/
theorem Heap.Sound.stores (hs : h.Sound plans) {field : FieldPlan} {s : Slot}
    (hholds : field.Holds plans.graph h s) (hrefers : s.RefersIn h) : field.Stores plans.graph h s := by
  obtain ⟨name, wireName, kind, nullable, isId⟩ := field
  cases s with
  | null => exact .inl ⟨rfl, hholds⟩
  | scalar v =>
      obtain ⟨leaf, rfl, hgives⟩ := hholds
      exact .inr ⟨v, rfl, hgives⟩
  | scalars vs =>
      obtain ⟨leaf, itemNullable, rfl, hitems⟩ := hholds
      refine .inr ⟨vs, rfl, fun v hv => (hitems v hv).imp_right And.right, fun hnull => ?_⟩
      exact (hitems _ hnull).symm.imp And.left Leaf.default_of_gives_null
  | object x =>
      rcases hholds with rfl | ⟨target, rfl, hpossible⟩
      · exact .inr ⟨x, rfl, hrefers, rfl⟩
      · obtain ⟨t, ht, hmem⟩ := possible_of_any hpossible
        exact .inr ⟨x, t, rfl, hrefers, ht, hmem⟩
  | list l =>
      obtain ⟨isAbstract, rfl⟩ := hholds
      exact .inr ⟨l, rfl, hrefers, rfl, rfl, fun x hx => ⟨hs.tidy.item hx, (hs.typed.item hx).element⟩⟩

/-- **What objects hold.** In a heap that came about by writing, a stored field is in the plan of the
type of its object, and holds what its kind says. -/
theorem stores_of_reached {schema : Introspection.Schema} {graph : TypeGraph} {scalars : Registry}
    (hgraph : TypeGraph.build schema = .ok graph) (hplans : Plans.build graph scalars = .ok plans)
    (hreached : Reached plans h) {o : ObjectId} {name : String} {s : Slot}
    (hget : (h.object o).get? name = some s) :
    ∃ plan field, plans.get? (h.object o).typeName = some plan ∧ plan.field? name = some field ∧
      field.Stores graph h s := by
  have hd : plans.Distinct := Plans.distinct_of_build hgraph hplans
  have hs := hreached.sound hd
  obtain ⟨plan, field, hplan, hfield, rfl, hholds⟩ := hs.typed.slot hget
  have hstores := hs.stores hholds (hs.refersIn hget)
  rw [Plans.graph_of_build hplans] at hstores
  exact ⟨plan, field, hplan, TypePlan.field?_of_mem (hd hplan) hfield, hstores⟩

section Sample

/-- A user, and an entry that is none. -/
def brokenUsers : Json := .object [("users", .array [.object [("id", .string "a")], .null])]

/-- The heap in which writing these users ended early. -/
def brokenHeap : Heap := (outcome (patch (samplePlans []) brokenUsers ⟨0⟩) sampleHeap).2.1

/-- The list was stored before its second entry was refused. -/
theorem stores_brokenHeap :
    (outcome (patch (samplePlans []) brokenUsers ⟨0⟩) sampleHeap).1 = .error (.expectedObject "User") ∧
      Reached (samplePlans []) brokenHeap ∧ (brokenHeap.object ⟨0⟩).get? "users" = some (.list ⟨0⟩) ∧
      ∃ plan field, (samplePlans []).get? (brokenHeap.object ⟨0⟩).typeName = some plan ∧
        plan.field? "users" = some field ∧ field.Stores (sampleGraph []) brokenHeap (.list ⟨0⟩) := by
  have hreached : Reached (samplePlans []) brokenHeap :=
    .patch brokenUsers (reached_sampleHeap _) hasObject_sampleHeap
  have hget : (brokenHeap.object ⟨0⟩).get? "users" = some (.list ⟨0⟩) := by decide +kernel
  refine ⟨by decide +kernel, hreached, hget, ?_⟩
  exact stores_of_reached build_sampleSchema build_samplePlans hreached hget

end Sample

end Live

end GraphClient
