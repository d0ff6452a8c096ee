import GraphClient.Proofs.Bindings.Expressions
import GraphClient.Proofs.Live.Contents

/-! What generated getters read. Whatever was written into a heap, the getter of a stored field gives
all that the field holds: no value of a leaf is of another type than the getter asks for, and no
object is of a type that it does not look for (`getter_shows_stored`). -/

namespace GraphClient

/-! A value that a converter gives is of the type that its scalar has in a program. -/

namespace StandardScalar

theorem read?_native_of_read {scalar : StandardScalar} {data : Json} {v : ScalarValue}
    (hread : scalar.read data = .ok v) :
    scalar.native.read? v = some v := by
  cases scalar <;> simp only [read] at hread
  case string | int | float | boolean | id => split at hread <;> cases hread <;> rfl
  all_goals
    obtain ⟨value, -, rfl⟩ := Except.map_eq_ok.1 hread
    rfl

theorem read?_native_default (scalar : StandardScalar) :
    scalar.native.read? scalar.default = some scalar.default := by
  cases scalar <;> rfl

theorem fallback_native (scalar : StandardScalar) : scalar.native.fallback = scalar.default := by
  cases scalar <;> rfl

theorem read?_native_null (scalar : StandardScalar) : scalar.native.read? .null = none := by
  cases scalar <;> rfl

end StandardScalar

namespace Live.Leaf

/-- What is read for a missing value is what is stored for it. -/
theorem fallback_eq_default (leaf : Leaf) : leaf.fallback = leaf.default := by
  cases leaf with
  | scalar c => rw [fallback, default, StandardScalar.fallback_native, Converter.default_eq]
  | enum typeName members => cases members <;> rfl

theorem read?_null (leaf : Leaf) : leaf.read? .null = none := by
  cases leaf with
  | scalar c => exact c.base.read?_native_null
  | enum typeName members => rfl

/-- The values of a leaf are of its type. -/
theorem read?_of_gives {leaf : Leaf} {v : ScalarValue} (hgives : leaf.Gives v) (hnull : v ≠ .null) :
    leaf.read? v = some v := by
  cases leaf with
  | scalar c =>
      rcases hgives with rfl | ⟨data, hread⟩
      · rw [default, Converter.default_eq]
        exact c.base.read?_native_default
      · exact StandardScalar.read?_native_of_read (convert_scalar_eq_ok.1 hread)
  | enum typeName members =>
      rcases hgives with rfl | ⟨data, hread⟩
      · cases members with
        | nil => exact absurd rfl hnull
        | cons m rest => exact if_pos List.mem_cons_self
      · cases data with
        | string s =>
            rw [convert] at hread
            split at hread <;> cases hread
            exact if_pos (by assumption)
        | _ => cases hread

end Live.Leaf

namespace Bindings

open Live (Leaf FieldPlan Plans Heap ObjectId ListId Slot Reached Instance)

/-- That a value shows all that a slot holds. A null list of objects is shown as an empty one. -/
def CodeType.Shows (h : Heap) : (type : CodeType) → type.Value → Slot → Prop
  | .leaf _, v, s => s = .scalar v
  | .wrapper _, o, s => s = .object o
  | .vec (.leaf _), vs, s => s = .scalars vs
  | .vec (.option (.leaf _)), vs, s => s = .scalars (List.map (·.getD .null) vs)
  | .vec (.wrapper _), os, s => (s = .null ∧ os = []) ∨ ∃ l, s = .list l ∧ (h.list l).items = os
  | .option type, v, s => (s = .null ∧ v = none) ∨ ∃ x, v = some x ∧ type.Shows h x s
  | _, _, _ => False

variable {g : TypeGraph} {h : Heap} {o : ObjectId} {field : String}

theorem shows_leaf {leaf : Leaf} {v : ScalarValue} (hget : (h.object o).get? field = some (.scalar v))
    (hread : leaf.read? v = some v) (nullable : Bool) :
    (Accessors.leaf leaf nullable).type.Shows h
      ((Accessors.leaf leaf nullable).getter.eval g h field o) (.scalar v) := by
  have hvalue : ((h.object o).scalar? field).bind leaf.read? = some v := by
    rw [Instance.scalar?, hget]
    exact hread
  cases nullable with
  | true => exact .inr ⟨v, hvalue, rfl⟩
  | false => exact congrArg Slot.scalar (congrArg (Option.getD · leaf.fallback) hvalue).symm

theorem shows_leafList {leaf : Leaf} {vs : List ScalarValue} {itemNullable : Bool}
    (hget : (h.object o).get? field = some (.scalars vs))
    (hread : ∀ v ∈ vs, leaf.read? v = some v ∨ (itemNullable = true ∧ v = .null)) (nullable : Bool) :
    (Accessors.leafList leaf nullable itemNullable).type.Shows h
      ((Accessors.leafList leaf nullable itemNullable).getter.eval g h field o) (.scalars vs) := by
  have hvalues : ((h.object o).scalars? field).map (·.map leaf.read?) = some (vs.map leaf.read?) := by
    rw [Instance.scalars?, hget]
    rfl
  -- What is put where nothing was read does not matter, except for null items.
  have hshown (missing : ScalarValue) (hmissing : itemNullable = true → missing = .null) :
      (vs.map leaf.read?).map (·.getD missing) = vs := by
    rw [List.map_map]
    refine (List.map_congr_left fun v hv => ?_).trans (List.map_id vs)
    rw [Function.comp_apply, id]
    rcases hread v hv with hread | ⟨hitem, rfl⟩
    · rw [hread, Option.getD_some]
    · rw [leaf.read?_null, hmissing hitem, Option.getD_none]
  cases itemNullable with
  | true =>
      have hitems := congrArg Slot.scalars (hshown .null fun _ => rfl).symm
      cases nullable with
      | true => exact .inr ⟨vs.map leaf.read?, hvalues, hitems⟩
      | false =>
          exact hitems.trans
            (congrArg (fun read => Slot.scalars ((Option.getD read []).map (·.getD .null))) hvalues).symm
  | false =>
      have hitems :=
        congrArg Slot.scalars (hshown leaf.fallback fun hitem => absurd hitem Bool.false_ne_true).symm
      have hfilled := congrArg (Option.map (List.map (·.getD leaf.fallback))) hvalues
      cases nullable with
      | true => exact .inr ⟨_, hfilled, hitems⟩
      | false => exact hitems.trans (congrArg (fun read => Slot.scalars (Option.getD read [])) hfilled).symm

theorem shows_object {x : ObjectId} (hget : (h.object o).get? field = some (.object x)) (target : String) :
    (Accessors.object target).type.Shows h ((Accessors.object target).getter.eval g h field o)
      (.object x) := by
  have hobject : (h.object o).object? field = some x := by rw [Instance.object?, hget]
  exact .inr ⟨x, congrArg (Option.map id) hobject, rfl⟩

theorem shows_abstract {x : ObjectId} {target : String} (hget : (h.object o).get? field = some (.object x))
    (hpossible : (g.get? target).any (·.isPossibleType (h.object x).typeName) = true) :
    (Accessors.abstract target).type.Shows h ((Accessors.abstract target).getter.eval g h field o)
      (.object x) := by
  have hobject : (h.object o).object? field = some x := by rw [Instance.object?, hget]
  exact .inr ⟨x, (congrArg (Option.bind · _) hobject).trans (if_pos hpossible), rfl⟩

theorem shows_objectList {l : ListId} {element : String} {isAbstract : Bool}
    (hget : (h.object o).get? field = some (.list l))
    (hpossible : isAbstract = true → ∀ x ∈ (h.list l).items,
      (g.get? element).any (·.isPossibleType (h.object x).typeName) = true) (keyed : Bool) :
    (Accessors.objectList element isAbstract keyed).type.Shows h
      ((Accessors.objectList element isAbstract keyed).getter.eval g h field o) (.list l) := by
  have hlist : (h.object o).list? field = some l := by rw [Instance.list?, hget]
  have hread (convert : List ObjectId → List ObjectId) (hall : convert (h.list l).items = (h.list l).items) :
      (((h.object o).list? field).map fun l => convert (h.list l).items).getD [] = (h.list l).items := by
    rw [hlist, Option.map_some, Option.getD_some, hall]
  refine .inr ⟨l, rfl, ?_⟩
  cases isAbstract with
  | false => exact (hread (List.map id) (List.map_id _)).symm
  | true =>
      refine (hread (List.filterMap _) ?_).symm
      exact (List.filterMap_congr fun x hx => if_pos (hpossible rfl x hx)).trans List.filterMap_some

theorem shows_null {plan : FieldPlan} (hget : (h.object o).get? field = some .null)
    (hnullable : plan.nullable = true) :
    (accessorsOf plan).type.Shows h ((accessorsOf plan).getter.eval g h field o) .null := by
  obtain ⟨name, wireName, kind, nullable, isId⟩ := plan
  obtain rfl : nullable = true := hnullable
  have hscalar : (h.object o).scalar? field = none := by rw [Instance.scalar?, hget]
  have hscalars : (h.object o).scalars? field = none := by rw [Instance.scalars?, hget]
  have hobject : (h.object o).object? field = none := by rw [Instance.object?, hget]
  have hlist : (h.object o).list? field = none := by rw [Instance.list?, hget]
  cases kind with
  | leaf leaf => exact .inl ⟨rfl, congrArg (Option.bind · leaf.read?) hscalar⟩
  | leafList leaf itemNullable =>
      cases itemNullable with
      | true => exact .inl ⟨rfl, congrArg (Option.map _) hscalars⟩
      | false => exact .inl ⟨rfl, congrArg (fun read => Option.map _ (Option.map _ read)) hscalars⟩
  | object target => exact .inl ⟨rfl, congrArg (Option.map _) hobject⟩
  | abstract target => exact .inl ⟨rfl, congrArg (Option.bind · _) hobject⟩
  | objectList element isAbstract keyed =>
      exact .inl ⟨rfl, congrArg (fun l? => Option.getD (Option.map _ l?) []) hlist⟩

/-- **Getters read what is stored.** In a heap that came about by writing, the getter of a stored field
gives all that the field holds, for every field but an enumeration without members, which has no values. -/
theorem getter_shows_stored {schema : Introspection.Schema} {scalars : Registry} {plans : Plans}
    (hgraph : TypeGraph.build schema = .ok g) (hplans : Plans.build g scalars = .ok plans)
    (hreached : Reached plans h) {name : String} {s : Slot} (hget : (h.object o).get? name = some s) :
    ∃ plan field, plans.get? (h.object o).typeName = some plan ∧ plan.field? name = some field ∧
      ((∀ leaf, field.kind = .leaf leaf ∨ (∃ itemNullable, field.kind = .leafList leaf itemNullable) →
          leaf.default ≠ .null) →
        (accessorsOf field).type.Shows h ((accessorsOf field).getter.eval g h name o) s) := by
  have hd : plans.Distinct := Plans.distinct_of_build hgraph hplans
  have hs := hreached.sound hd
  obtain ⟨plan, field, hplan, hfield, rfl, hholds⟩ := hs.typed.slot hget
  refine ⟨plan, field, hplan, Live.TypePlan.field?_of_mem (hd hplan) hfield, fun hdefault => ?_⟩
  rw [Plans.graph_of_build hplans] at hholds
  have hread (leaf : Leaf) (hleaf : leaf.default ≠ .null) {v : ScalarValue} (hgives : leaf.Gives v) :
      leaf.read? v = some v :=
    Leaf.read?_of_gives hgives fun hnull => hleaf (Leaf.default_of_gives_null (hnull ▸ hgives))
  obtain ⟨native, wireName, kind, nullable, isId⟩ := field
  cases s with
  | null => exact shows_null hget hholds
  | scalar v =>
      obtain ⟨leaf, rfl, hgives⟩ := hholds
      exact shows_leaf hget (hread leaf (hdefault leaf (.inl rfl)) hgives) nullable
  | scalars vs =>
      obtain ⟨leaf, itemNullable, rfl, hitems⟩ := hholds
      have hleaf := hdefault leaf (.inr ⟨itemNullable, rfl⟩)
      exact shows_leafList hget (fun v hv => (hitems v hv).imp_left (hread leaf hleaf)) nullable
  | object x =>
      rcases hholds with rfl | ⟨target, rfl, hpossible⟩
      · exact shows_object hget _
      · exact shows_abstract hget hpossible
  | list l =>
      obtain ⟨isAbstract, rfl⟩ := hholds
      refine shows_objectList hget (fun habstract x hx => ?_) _
      obtain ⟨name, definition, hplanned⟩ := Plans.exists_planField hplans hplan hfield
      obtain ⟨t, ht, hseveral⟩ := (Live.isAbstract_of_planField hplanned rfl).1 habstract
      have hadmits := hs.typed.item hx
      rw [Plans.graph_of_build hplans, Live.Admits, ht] at hadmits
      rw [ht]
      rwa [if_pos (by exact hseveral)] at hadmits

end Bindings

end GraphClient
