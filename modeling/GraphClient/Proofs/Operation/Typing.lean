import GraphClient.Proofs.Operation.Unfolding

/-! Types of bound selections. Whatever is selected anywhere in a bound operation is selected from a
type that has it: fields where they are declared, with a selection just where there is something to
select, and object types where objects may be of them. -/

namespace GraphClient

namespace Selected

/-- The selections within a selection, at any depth. -/
inductive Reaches (s : Selected) : Selected → Prop
  | self : Reaches s s
  | field {t u : Selected} {wireName : String} {f : SelectedField} (h : Reaches s t)
      (hfield : (wireName, f) ∈ t.fieldEntries) (hselection : f.selection = some u) : Reaches s u
  | variant {t v : Selected} {typeName : String} (h : Reaches s t)
      (hvariant : (typeName, v) ∈ t.variantEntries) :
      Reaches s v

/-- That a field of a selection is one of the type that is selected from. -/
structure FieldTyped (g : TypeGraph) (typeName key : String) (f : SelectedField) : Prop where
  wireName : f.wireName = key
  declared : ∃ definition target, g.Declares typeName key definition target ∧ definition.wireName = key ∧
    f.name = definition.name ∧ (f.selection.isSome ↔ target.kind.isComposite) ∧
    ∀ nested, f.selection = some nested → nested.typeName = definition.type.typeName

/-- That a selection, but for what is selected further in, agrees with a schema. -/
structure WellTyped (g : TypeGraph) (s : Selected) : Prop where
  composite : ∃ t, g.get? s.typeName = some t ∧ t.kind.isComposite
  fieldKeys : (s.fieldEntries.map (·.1)).Nodup
  variantKeys : (s.variantEntries.map (·.1)).Nodup
  field : ∀ wireName f, (wireName, f) ∈ s.fieldEntries → FieldTyped g s.typeName wireName f
  abstract : s.variantEntries ≠ [] → ∃ t, g.get? s.typeName = some t ∧ t.kind.isAbstract
  variant : ∀ typeName v, (typeName, v) ∈ s.variantEntries → v.typeName = typeName ∧ v.variantEntries = [] ∧
    ∃ t, g.get? s.typeName = some t ∧ typeName ∈ t.possibleTypes
  nonempty : s.fieldEntries ≠ [] ∨ s.typenameSelected ∨ s.variantEntries ≠ []

end Selected

/-- What is known of a selection within a bound operation: what it gathers may be asked for of its
type, which is composite, and is not nothing. -/
structure Gathers.Fit (g : TypeGraph) (s : Selected) (asked : List Asked) : Prop where
  gathers : Gathers s asked
  fits : ∀ a ∈ asked, Asked.Fits g s.typeName a
  nonempty : asked ≠ []
  composite : ∃ t, g.get? s.typeName = some t ∧ t.kind.isComposite

variable {g : TypeGraph} {s t : Selected} {asked : List Asked}

theorem lookup_of_mem {α : Type} {entries : List (String × α)} (hnodup : (entries.map (·.1)).Nodup)
    {key : String} {a : α} (h : (key, a) ∈ entries) : entries.lookup key = some a :=
  @Table.get?_of_mem α ⟨entries⟩ hnodup key a h

/-- What a field of a selection comes from, and where its own selection comes from. -/
theorem Gathers.field (h : Gathers s asked) {wireName : String} {f : SelectedField}
    (hmem : (wireName, f) ∈ s.fieldEntries) : f.Of asked wireName ∧
      ∀ t, f.selection = some t → Gathers t (Asked.ofField wireName asked) := by
  have hlookup := lookup_of_mem h.nodup.1 hmem
  cases h with
  | mk _ _ _ hfield _ hnested => exact ⟨hfield _ _ hlookup, fun t => hnested _ _ t hlookup⟩

theorem Gathers.variant (h : Gathers s asked) {typeName : String} {v : Selected}
    (hmem : (typeName, v) ∈ s.variantEntries) :
    v.typeName = typeName ∧ Gathers v (Asked.ofVariant typeName asked) ∧
      ∃ inner, Asked.on typeName inner ∈ asked := by
  have hlookup := lookup_of_mem h.nodup.2 hmem
  cases h with
  | mk _ _ hconditions _ hvariant _ hinner =>
      have hkey : typeName ∈ Asked.conditions asked := hconditions ▸ List.mem_map_of_mem hmem
      obtain ⟨a, ha, hcondition⟩ := Asked.mem_conditions.1 hkey
      cases a with
      | on =>
          cases hcondition
          exact ⟨hvariant _ _ hlookup, hinner _ _ hlookup, _, ha⟩
      | _ => cases hcondition

/-- Where something is asked for, something is selected. -/
theorem Gathers.nonempty (h : Gathers s asked) {a : Asked} (ha : a ∈ asked) :
    s.fieldEntries ≠ [] ∨ s.typenameSelected ∨ s.variantEntries ≠ [] := by
  cases h with
  | @mk _ fields _ variants _ htypename hwireNames hconditions =>
      have hfield : ∀ {wireName}, a.wireName? = some wireName → fields ≠ [] := fun h hnil => by
        have hkey := Asked.mem_wireNames.2 ⟨a, ha, h⟩
        rw [← hwireNames, hnil] at hkey
        cases hkey
      have hvariant : ∀ {typeName}, a.condition? = some typeName → variants ≠ [] := fun h hnil => by
        have hkey := Asked.mem_conditions.2 ⟨a, ha, h⟩
        rw [← hconditions, hnil] at hkey
        cases hkey
      cases a with
      | typename => exact .inr (.inl (htypename.2 ha))
      | leaf => exact .inl (hfield rfl)
      | nested => exact .inl (hfield rfl)
      | on => exact .inr (.inr (hvariant rfl))

namespace Asked.Fits

variable {typeName wireName condition name : String} {inner : List Asked}

theorem of_nested (h : Fits g typeName (.nested name wireName condition inner)) : ∃ definition target,
    g.Declares typeName wireName definition target ∧ name = definition.name ∧ condition = target.name ∧
      target.kind.isComposite = true ∧ inner ≠ [] ∧ ∀ a ∈ inner, Fits g condition a := by
  cases h with
  | nested hdeclares hcomposite hnonempty hinner =>
      exact ⟨_, _, hdeclares, rfl, rfl, hcomposite, hnonempty, hinner⟩

theorem of_on (h : Fits g typeName (.on condition inner)) :
    g.Admits typeName condition ∧ inner ≠ [] ∧ ∀ a ∈ inner, Fits g condition a := by
  cases h with
  | on hadmits hnonempty hinner => exact ⟨hadmits, hnonempty, hinner⟩

end Asked.Fits

theorem TypeGraph.Declares.wireName (hg : g.Filed) {typeName key : String} {definition : FieldDefinition}
    {target : TypeDefinition} (h : g.Declares typeName key definition target) :
    definition.wireName = key := by
  obtain ⟨context, hcontext, hfield⟩ := h.field
  have htype := hg.type _ (Table.mem_of_get? hcontext)
  exact htype.wireName _ (Table.mem_of_get? hfield)

/-- What is asked for of a field may be asked for of its type. -/
theorem Asked.fits_ofField {typeName wireName : String} {definition : FieldDefinition}
    {target : TypeDefinition}
    (hfits : ∀ a ∈ asked, Fits g typeName a) (hdeclares : g.Declares typeName wireName definition target) :
    ∀ a ∈ ofField wireName asked, Fits g target.name a := by
  intro a ha
  obtain ⟨_, _, _, hmem, ha⟩ := mem_ofField.1 ha
  obtain ⟨_, _, hdeclares', -, rfl, -, -, hinner⟩ := (hfits _ hmem).of_nested
  obtain ⟨-, rfl⟩ := hdeclares.unique hdeclares'
  exact hinner a ha

theorem Asked.fits_ofVariant {typeName condition : String} (hfits : ∀ a ∈ asked, Fits g typeName a) :
    ∀ a ∈ ofVariant condition asked, Fits g condition a := by
  intro a ha
  obtain ⟨_, hmem, ha⟩ := mem_ofVariant.1 ha
  exact (hfits _ hmem).of_on.2.2 a ha

/-- A selected field is the one that is declared, as often as it was asked for. -/
theorem Gathers.declared (h : Gathers s asked) {typeName : String}
    (hfits : ∀ a ∈ asked, Asked.Fits g typeName a)
    {wireName : String} {f : SelectedField} (hmem : (wireName, f) ∈ s.fieldEntries) :
    ∃ definition target, g.Declares typeName wireName definition target ∧ f.name = definition.name ∧
      (f.selection.isSome ↔ target.kind.isComposite) ∧ ∀ nested, f.selection = some nested →
        nested.typeName = target.name := by
  obtain ⟨hof, -⟩ := h.field hmem
  have hnested : ∀ {name condition inner definition target},
      Asked.nested name wireName condition inner ∈ asked →
      g.Declares typeName wireName definition target → target.kind.isComposite = true ∧
      condition = target.name := by
    intro name condition inner definition target ha hdeclares
    obtain ⟨_, _, hdeclares', -, rfl, hcomposite, -⟩ := (hfits _ ha).of_nested
    obtain ⟨rfl, rfl⟩ := hdeclares.unique hdeclares'
    exact ⟨hcomposite, rfl⟩
  have htarget : ∀ {definition target}, g.Declares typeName wireName definition target →
      ∀ nested, f.selection = some nested → nested.typeName = target.name := by
    intro definition target hdeclares nested hselection
    obtain ⟨name, inner, ha⟩ := hof.typeName nested hselection
    exact (hnested ha hdeclares).2
  obtain ⟨a, ha, hwireName, hname⟩ := hof.name
  have hfit := hfits a ha
  cases hfit with
  | typename => cases hwireName
  | on => cases hwireName
  | @leaf _ _ definition target hdeclares hleaf =>
      cases hwireName
      refine ⟨definition, target, hdeclares, (Option.some.inj hname).symm, ?_, htarget hdeclares⟩
      refine ⟨fun hsome => ?_, fun hcomposite => ?_⟩
      · obtain ⟨_, _, _, ha'⟩ := hof.nests.1 hsome
        exact (hnested ha' hdeclares).1
      · rw [hleaf] at hcomposite
        cases hcomposite
  | @nested _ _ definition target inner hdeclares hcomposite hnonempty hinner =>
      cases hwireName
      exact ⟨definition, target, hdeclares, (Option.some.inj hname).symm,
        ⟨fun _ => hcomposite, fun _ => hof.nests.2 ⟨_, _, _, ha⟩⟩, htarget hdeclares⟩

namespace Gathers.Fit

/-- The fields of a selection within a bound operation. -/
theorem fieldTyped (hg : g.Filed) (h : Fit g s asked) {wireName : String} {f : SelectedField}
    (hmem : (wireName, f) ∈ s.fieldEntries) : Selected.FieldTyped g s.typeName wireName f := by
  obtain ⟨definition, target, hdeclares, hname, hcomposite, htarget⟩ := h.gathers.declared h.fits hmem
  refine ⟨(h.gathers.field hmem).1.wireName, definition, target, hdeclares,
    hdeclares.wireName hg, hname, hcomposite, fun nested hselection => ?_⟩
  rw [htarget nested hselection, hg.name_of_get? hdeclares.target]

theorem nested (hg : g.Filed) (h : Fit g s asked) {wireName : String} {f : SelectedField}
    (hmem : (wireName, f) ∈ s.fieldEntries) (hselection : f.selection = some t) :
    Fit g t (Asked.ofField wireName asked) := by
  obtain ⟨hof, hgathers⟩ := h.gathers.field hmem
  obtain ⟨definition, target, hdeclares, -, hcomposite, htarget⟩ := h.gathers.declared h.fits hmem
  have hname := htarget t hselection
  refine ⟨hgathers t hselection, hname ▸ Asked.fits_ofField h.fits hdeclares, ?_, target, ?_, ?_⟩
  · obtain ⟨name, inner, ha⟩ := hof.typeName t hselection
    obtain ⟨_, _, -, -, -, -, hnonempty, -⟩ := (h.fits _ ha).of_nested
    obtain ⟨a, ha'⟩ := List.exists_mem_of_ne_nil _ hnonempty
    exact List.ne_nil_of_mem (Asked.mem_ofField.2 ⟨_, _, _, ha, ha'⟩)
  · rw [hname, hg.name_of_get? hdeclares.target]
    exact hdeclares.target
  · exact hcomposite.1 (by rw [hselection]; rfl)

theorem variant (hg : g.Grounded) (h : Fit g s asked) {typeName : String}
    (hmem : (typeName, t) ∈ s.variantEntries) :
    Fit g t (Asked.ofVariant typeName asked) ∧ g.IsObject typeName := by
  obtain ⟨rfl, hgathers, inner, ha⟩ := h.gathers.variant hmem
  obtain ⟨⟨⟨context, hcontext, -, hpossible⟩, -⟩, hnonempty, -⟩ := (h.fits _ ha).of_on
  have hobject := hg.possible _ _ hcontext _ (List.contains_iff_mem.1 hpossible)
  refine ⟨⟨hgathers, Asked.fits_ofVariant h.fits, ?_, ?_⟩, hobject⟩
  · obtain ⟨a, ha'⟩ := List.exists_mem_of_ne_nil _ hnonempty
    exact List.ne_nil_of_mem (Asked.mem_ofVariant.2 ⟨_, ha, ha'⟩)
  · obtain ⟨o, ho, hkind⟩ := hobject
    exact ⟨o, ho, by rw [hkind]; rfl⟩

/-- From object types alone no other type is selected from. -/
theorem variantEntries_of_object (h : Fit g s asked) (hobject : g.IsObject s.typeName) :
    s.variantEntries = [] := by
  refine List.eq_nil_iff_forall_not_mem.2 fun ⟨typeName, v⟩ hmem => ?_
  obtain ⟨-, -, inner, ha⟩ := h.gathers.variant hmem
  obtain ⟨⟨⟨context, hcontext, habstract, -⟩, -⟩, -⟩ := (h.fits _ ha).of_on
  obtain ⟨o, ho, hkind⟩ := hobject
  obtain rfl := Option.some.inj (hcontext.symm.trans ho)
  rw [hkind] at habstract
  cases habstract

theorem wellTyped (hfiled : g.Filed) (hgrounded : g.Grounded) (h : Fit g s asked) : s.WellTyped g where
  composite := h.composite
  fieldKeys := h.gathers.nodup.1
  variantKeys := h.gathers.nodup.2
  field _ _ hmem := h.fieldTyped hfiled hmem
  abstract hne := by
    obtain ⟨⟨typeName, v⟩, hmem⟩ := List.exists_mem_of_ne_nil _ hne
    obtain ⟨-, -, inner, ha⟩ := h.gathers.variant hmem
    obtain ⟨⟨context, hcontext, habstract, -⟩, -⟩ := (h.fits _ ha).of_on.1
    exact ⟨context, hcontext, habstract⟩
  variant typeName v hmem := by
    obtain ⟨hname, -, inner, ha⟩ := h.gathers.variant hmem
    obtain ⟨⟨context, hcontext, -, hpossible⟩, -⟩ := (h.fits _ ha).of_on.1
    obtain ⟨hfit, hobject⟩ := h.variant hgrounded hmem
    exact ⟨hname, hfit.variantEntries_of_object (hname.symm ▸ hobject), context, hcontext,
      List.contains_iff_mem.1 hpossible⟩
  nonempty := by
    obtain ⟨a, ha⟩ := List.exists_mem_of_ne_nil _ h.nonempty
    exact h.gathers.nonempty ha

theorem reaches (hfiled : g.Filed) (hgrounded : g.Grounded) (h : Fit g s asked) (hreaches : s.Reaches t) :
    ∃ inner, Fit g t inner := by
  induction hreaches with
  | self => exact ⟨asked, h⟩
  | field _ hfield hselection ih =>
      obtain ⟨inner, hinner⟩ := ih
      exact ⟨_, hinner.nested hfiled hfield hselection⟩
  | variant _ hvariant ih =>
      obtain ⟨inner, hinner⟩ := ih
      exact ⟨_, (hinner.variant hgrounded hvariant).1⟩

end Gathers.Fit

/-- **Bound selections are well typed**, at every depth, and operations select from
the root type of their kind. -/
theorem bind_well_typed {schema : Introspection.Schema} {graph : TypeGraph} {source : String}
    {ops : List Operation}
    {op : Operation} (hbuild : TypeGraph.build schema = .ok graph) (hbind : bind graph source = .ok ops)
    (hop : op ∈ ops) : graph.rootType? op.kind = some op.selection.typeName ∧
      op.rootType = op.selection.typeName ∧ ∀ s, op.selection.Reaches s → s.WellTyped graph := by
  have hfiled := TypeGraph.filed_of_build hbuild
  have hgrounded := TypeGraph.grounded_of_build hbuild
  obtain ⟨definition, -, asked, hanswers⟩ := exists_of_mem_forall₂ (answers_of_bind hbind) hop
  have hfit : Gathers.Fit graph op.selection asked := by
    obtain ⟨t, ht, hkind⟩ := hgrounded.root _ _ hanswers.root
    exact ⟨hanswers.gathers, hanswers.typeName.symm ▸ hanswers.fits, hanswers.nonempty, t,
      hanswers.typeName.symm ▸ ht, by rw [hkind]; rfl⟩
  refine ⟨hanswers.typeName.symm ▸ hanswers.root, hanswers.typeName.symm, fun s hs => ?_⟩
  obtain ⟨inner, hinner⟩ := hfit.reaches hfiled hgrounded hs
  exact hinner.wellTyped hfiled hgrounded

theorem bind_feed_well_typed : TypeGraph.build feedSchema = .ok feedGraph ∧
    bind feedGraph feedDocument = .ok [feedOperation] ∧
      ∀ s, feedOperation.selection.Reaches s → s.WellTyped feedGraph :=
  ⟨build_feedSchema, bind_feedDocument,
    (bind_well_typed build_feedSchema bind_feedDocument (List.mem_singleton_self _)).2.2⟩

end GraphClient
