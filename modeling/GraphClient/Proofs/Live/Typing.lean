import GraphClient.Proofs.Live.Frame
import GraphClient.Proofs.Scalar.Registry

/-! The types of slots. A field of an object holds what its plan says: a value that its leaf gives, an
object of a type that it admits, or a list for elements of its type; and elements of a list have a type
that the list admits. What data asks of a field always fits the plan of the field. -/

namespace GraphClient.Live

namespace Leaf

/-- The values of a leaf: those that it reads, and the one that stands in for others. -/
def Gives (leaf : Leaf) (v : ScalarValue) : Prop := v = leaf.default ∨ ∃ data, leaf.convert data = .ok v

/-- A leaf whose values are texts. -/
def IsText : Leaf → Prop
  | scalar c => c.base = .string ∨ c.base = .id
  | enum _ _ => False

theorem gives_default (leaf : Leaf) : leaf.Gives leaf.default := .inl rfl

theorem gives_convertOrDefault (leaf : Leaf) (data : Json) : leaf.Gives (leaf.convertOrDefault data) := by
  rw [convertOrDefault]
  cases hread : leaf.convert data with
  | ok v => exact .inr ⟨data, hread⟩
  | error e => exact gives_default leaf

theorem convert_scalar_eq_ok {c : Converter} {data : Json} {v : ScalarValue} :
    (scalar c).convert data = .ok v ↔ c.base.read data = .ok v := by
  rw [convert, Except.mapError_eq_ok, Converter.read_eq_ok]

/-- Only texts are ever read as texts. -/
theorem isText_of_gives_string {leaf : Leaf} {s : String} (hgives : leaf.Gives (.string s)) :
    leaf.IsText := by
  cases leaf with
  | enum typeName members =>
      rcases hgives with hdefault | ⟨data, hread⟩
      · cases members <;> cases hdefault
      · cases data with
        | string t =>
            simp only [convert] at hread
            split at hread <;> cases hread
        | _ => cases hread
  | scalar c =>
      rcases hgives with hdefault | ⟨data, hread⟩
      · rw [default, Converter.default_eq] at hdefault
        rw [IsText]
        cases hbase : c.base <;> rw [hbase] at hdefault <;>
          first | exact .inl rfl | exact .inr rfl | cases hdefault
      · rw [convert_scalar_eq_ok] at hread
        rw [IsText]
        cases hbase : c.base <;> rw [hbase] at hread
        case string => exact .inl rfl
        case id => exact .inr rfl
        all_goals
          simp only [StandardScalar.read] at hread
          first
            | (split at hread <;> cases hread)
            | (simp only [Functor.map, Except.map] at hread; split at hread <;> cases hread)

theorem convert_null (leaf : Leaf) (v : ScalarValue) : leaf.convert .null ≠ .ok v := by
  cases leaf with
  | enum typeName members => exact nofun
  | scalar c =>
      intro hread
      rw [convert_scalar_eq_ok] at hread
      cases hbase : c.base <;> rw [hbase] at hread <;> cases hread

/-- A text is read from the same text, or from the whole number that it shows. -/
theorem wire_of_convert_string {leaf : Leaf} {data : Json} {s : String}
    (hread : leaf.convert data = .ok (.string s)) :
    data = .string s ∨ ∃ i, data = .number (.whole i) ∧ toString i = s := by
  have htext := isText_of_gives_string (.inr ⟨data, hread⟩)
  cases leaf with
  | enum typeName members => exact htext.elim
  | scalar c =>
      rw [convert_scalar_eq_ok] at hread
      rcases htext with hbase | hbase <;> rw [hbase] at hread <;> simp only [StandardScalar.read] at hread
      all_goals split at hread <;> cases hread
      · exact .inl rfl
      · exact .inl rfl
      · exact .inr ⟨_, rfl, rfl⟩

/-- A text leaf has a text for everything that is not null. -/
theorem convertOrDefault_of_isText {leaf : Leaf} (htext : leaf.IsText) (data : Json) :
    ∃ s, leaf.convertOrDefault data = .string s := by
  cases leaf with
  | enum typeName members => exact htext.elim
  | scalar c =>
      rw [convertOrDefault]
      cases hread : (scalar c).convert data with
      | error e =>
          refine ⟨"", ?_⟩
          rcases htext with hbase | hbase <;> simp only [default, Converter.default_eq, hbase] <;> rfl
      | ok v =>
          rw [convert_scalar_eq_ok] at hread
          rcases htext with hbase | hbase <;> rw [hbase] at hread <;> simp only [StandardScalar.read] at hread
          all_goals split at hread <;> cases hread <;> exact ⟨_, rfl⟩

end Leaf

/-- That a slot fits a field. -/
def FieldPlan.Holds (graph : TypeGraph) (h : Heap) (field : FieldPlan) : Slot → Prop
  | .null => field.nullable = true
  | .scalar v => ∃ leaf, field.kind = .leaf leaf ∧ leaf.Gives v
  | .scalars vs => ∃ leaf itemNullable, field.kind = .leafList leaf itemNullable ∧
      ∀ v ∈ vs, leaf.Gives v ∨ (itemNullable = true ∧ v = .null)
  | .object x => field.kind = .object (h.object x).typeName ∨ ∃ target, field.kind = .abstract target ∧
      (graph.get? target).any (·.isPossibleType (h.object x).typeName) = true
  | .list l => ∃ isAbstract, field.kind = .objectList (h.list l).elementType isAbstract (h.list l).keyed

/-- That objects of a type may be elements of a list. -/
def Admits (graph : TypeGraph) (element typeName : String) : Prop :=
  if (graph.get? element).any (·.kind.isAbstract) then
    (graph.get? element).any (·.isPossibleType typeName) = true
  else typeName = element

theorem possible_of_concreteType {graph : TypeGraph} {target concrete : String} {data : Json}
    (hconcrete : concreteType graph target data = .ok concrete) :
    (graph.get? target).any (·.isPossibleType concrete) = true := by
  rw [concreteType] at hconcrete
  split at hconcrete
  · split at hconcrete
    · cases hconcrete
      assumption
    · cases hconcrete
  · cases hconcrete

theorem admits_of_concreteElement {graph : TypeGraph} {element concrete : String} {data : Json}
    (hconcrete : concreteElement graph element data = .ok concrete) : Admits graph element concrete := by
  unfold Admits
  cases data with
  | object members =>
      rw [concreteElement] at hconcrete
      split at hconcrete
      · rename_i habstract
        rw [if_pos habstract]
        exact possible_of_concreteType hconcrete
      · rename_i habstract
        cases hconcrete
        rw [if_neg habstract]
  | _ => cases hconcrete

/-- What is stored fits the field, whatever the heap. -/
theorem holds_of_demand_store {graph : TypeGraph} {typeName : String} {field : FieldPlan} {data : Json}
    {slot : Slot} (hdemand : demand graph typeName field data = .store slot) (h : Heap) :
    field.Holds graph h slot := by
  have hasks := demands graph typeName field data
  rw [hdemand] at hasks
  cases hasks with
  | @leaf leaf data hkind =>
      cases data with
      | null =>
          rw [leafSlot]
          split
          · assumption
          · exact ⟨leaf, hkind, leaf.gives_default⟩
      | _ => exact ⟨leaf, hkind, leaf.gives_convertOrDefault _⟩
  | @noLeaves leaf itemNullable hkind =>
      split
      · assumption
      · exact ⟨leaf, itemNullable, hkind, fun v hv => absurd hv List.not_mem_nil⟩
  | @leaves leaf itemNullable items hkind =>
      refine ⟨leaf, itemNullable, hkind, fun v hv => ?_⟩
      obtain ⟨item, -, rfl⟩ := List.mem_map.1 hv
      cases item with
      | null =>
          rw [itemValue]
          split
          · exact .inr ⟨by assumption, rfl⟩
          · exact .inl leaf.gives_default
      | _ => exact .inl (leaf.gives_convertOrDefault _)
  | null hnullable => exact hnullable

/-- An object that is to be written is of a type that the field admits. -/
theorem holds_of_demand_fill {graph : TypeGraph} {typeName concrete : String}
    {field : FieldPlan} {data : Json}
    (hdemand : demand graph typeName field data = .fill concrete) {h : Heap} {x : ObjectId}
    (hx : (h.object x).typeName = concrete) : field.Holds graph h (.object x) := by
  subst hx
  have hasks := demands graph typeName field data
  rw [hdemand] at hasks
  cases hasks with
  | object members hkind => exact .inl hkind
  | member hkind hconcrete => exact .inr ⟨_, hkind, possible_of_concreteType hconcrete⟩

theorem kind_of_demand_arrange {graph : TypeGraph} {typeName element : String} {field : FieldPlan}
    {data : Json} {keyed : Bool} {items : List Json}
    (hdemand : demand graph typeName field data = .arrange element keyed items) :
    ∃ isAbstract, field.kind = .objectList element isAbstract keyed := by
  have hasks := demands graph typeName field data
  rw [hdemand] at hasks
  cases hasks with
  | list items hkind => exact ⟨_, hkind⟩

/-- What a slot refers to. -/
def Slot.RefersIn (h : Heap) : Slot → Prop
  | .object x => h.HasObject x
  | .list l => h.HasList l
  | .null | .scalar _ | .scalars _ => True

/-- A slot that refers to old objects and lists fits its field later on, too. -/
theorem FieldPlan.Holds.evolves {graph : TypeGraph} {h h' : Heap} {field : FieldPlan} {s : Slot}
    (hholds : field.Holds graph h s) (he : h.Evolves h') (hs : s.RefersIn h) : field.Holds graph h' s := by
  cases s with
  | object x => rwa [FieldPlan.Holds, he.typeName hs]
  | list l => rwa [FieldPlan.Holds, (he.listType hs).1, (he.listType hs).2]
  | _ => exact hholds

/-- That all slots fit their fields, and all elements their lists. -/
structure Heap.Typed (plans : Plans) (h : Heap) : Prop where
  slot : ∀ {o name s}, (h.object o).get? name = some s → ∃ plan field,
    plans.get? (h.object o).typeName = some plan ∧ field ∈ plan.fields ∧ field.wireName = name ∧
      field.Holds plans.graph h s
  item : ∀ {l x}, x ∈ (h.list l).items → Admits plans.graph (h.list l).elementType (h.object x).typeName

/-- An object that has an id has a text field for it. -/
theorem Heap.Typed.id_field {plans : Plans} {h : Heap} (ht : h.Typed plans) {o : ObjectId} {id : String}
    (hid : (h.object o).id? = some id) : ∃ plan field leaf, plans.get? (h.object o).typeName = some plan ∧
      field ∈ plan.fields ∧ field.wireName = Instance.idField ∧ field.kind = .leaf leaf ∧ leaf.IsText := by
  have hget : (h.object o).get? Instance.idField = some (.scalar (.string id)) := by
    unfold Instance.id? at hid
    split at hid
    · rename_i hget
      cases hid
      exact hget
    · cases hid
  obtain ⟨plan, field, hplan, hfield, hname, leaf, hkind, hgives⟩ := ht.slot hget
  exact ⟨plan, field, leaf, hplan, hfield, hname, hkind, Leaf.isText_of_gives_string hgives⟩

end GraphClient.Live
