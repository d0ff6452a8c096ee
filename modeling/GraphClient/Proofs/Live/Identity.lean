import GraphClient.Proofs.Live.Diff

/-! Objects that fields keep. A field keeps its object if data is of the same type and does not have
another id, and then the data goes into that object as if it was written alone (`keepsIn_iff`). What
counts as an id is not the field that tells objects apart, but any text under the name `id`: an object
without such a field may lose its place all the same (`not_patch_keeps`). Whether the objects of a
type always stay can be told by its plan (`patch_keeps_iff`). -/

namespace GraphClient.Live

variable {plans : Plans} {h h' : Heap} {o x : ObjectId} {typeName : String}
  {field : FieldPlan} {data d : Json} {q : List Notification}

theorem sameIdentity_iff {i : Instance} :
    sameIdentity i data = true ↔ wireId? data = none ∨ i.id? = none ∨ i.id? = wireId? data := by
  unfold sameIdentity
  cases wireId? data with
  | none => simp
  | some incoming => cases i.id? <;> simp

/-- That the objects of a type have a text under the name `id`, whatever that field is for. -/
def TypePlan.HasTextId (plan : TypePlan) : Prop :=
  ∃ field ∈ plan.fields, field.wireName = Instance.idField ∧ ∃ leaf, field.kind = .leaf leaf ∧ leaf.IsText

theorem Heap.Typed.hasTextId (ht : h.Typed plans) {plan : TypePlan}
    (hplan : plans.get? (h.object x).typeName = some plan) {id : String} (hid : (h.object x).id? = some id) :
    plan.HasTextId := by
  obtain ⟨plan', field, leaf, hplan', hfield, hname, hkind, htext⟩ := ht.id_field hid
  rw [hplan, Option.some.injEq] at hplan'
  exact hplan' ▸ ⟨field, hfield, hname, leaf, hkind, htext⟩

/-- Fields that data does not have are passed over. -/
theorem Writes.of_absent {fields : List FieldPlan} (habsent : ∀ f ∈ fields, data.get? f.wireName = none) :
    Writes plans h (.fields o typeName fields data (.ok [])) h [] := by
  induction fields with
  | nil => exact .halt .noField
  | cons f rest ih =>
      apply Writes.skip (habsent f List.mem_cons_self)
      exact ih fun g hg => habsent g (List.mem_cons_of_mem _ hg)

theorem get?_single (name : String) (d : Json) : (Json.object [(name, d)]).get? name = some d := by
  simp [Json.get?]

theorem get?_single_of_ne {name other : String} (hne : other ≠ name) (d : Json) :
    (Json.object [(name, d)]).get? other = none := by
  rw [Json.get?, Table.lookup_cons_eq, if_neg hne, List.lookup_nil]

/-- Data with one member writes one field. -/
theorem Writes.single {fields : List FieldPlan} (hnodup : (fields.map (·.wireName)).Nodup)
    (hfield : field ∈ fields)
    {r : Except PatchError Bool} (hw : Writes plans h (.field o typeName field d r) h' q) :
    Writes plans h (.fields o typeName fields (.object [(field.wireName, d)])
      (r.map fun changed => consChanged field.wireName changed [])) h' q := by
  induction fields with
  | nil => exact absurd hfield List.not_mem_nil
  | cons f rest ih =>
      rw [List.map_cons, List.nodup_cons] at hnodup
      have hother : ∀ g ∈ rest, f.wireName ≠ g.wireName := fun g hg heq =>
        hnodup.1 (heq ▸ List.mem_map_of_mem hg)
      rcases List.mem_cons.1 hfield with rfl | hfield
      · cases r with
        | error e => exact .stop (get?_single _ d) hw
        | ok changed =>
            have hrest : Writes plans h'
                (.fields o typeName rest (.object [(field.wireName, d)]) (.ok [])) h' [] :=
              .of_absent fun g hg => get?_single_of_ne (hother g hg).symm d
            have hall := Writes.next (get?_single field.wireName d) hw hrest
            rwa [List.append_nil] at hall
      · exact .skip (get?_single_of_ne (hother field hfield) d) (ih hnodup.2 hfield)

theorem Heap.kept?_of_slot (hslot : h.slot o field.wireName = .object x) (data : Json) :
    h.kept? o field.wireName (h.object x).typeName data =
      if sameIdentity (h.object x) data = true then some x else none := by
  rw [kept?, object?_eq_some.2 hslot, Option.filter_some]
  simp

/-- That data for a field goes into the object there, which stays in its place, as if it was written alone. -/
structure Heap.KeepsIn (plans : Plans) (h : Heap) (o : ObjectId) (field : String)
    (x : ObjectId) (data : Json) : Prop where
  inPlace : outcome (patch plans (.object [(field, data)]) o) h =
    ((outcome (patch plans data x) h).1.map fun _ => [], (outcome (patch plans data x) h).2)
  slot : ∀ d, d.get? field = some data → (outcome (patch plans d o) h).2.1.slot o field = .object x
  quiet : ∀ d, d.get? field = some data → .field o field ∉ (outcome (patch plans d o) h).2.2 ∧
    ∀ changes, (outcome (patch plans d o) h).1 = .ok changes → field ∉ changes

/-- Data for an object goes into the one that the field keeps, or else into a new one. -/
theorem Writes.cases_fill {r : Except PatchError Bool}
    (hw : Writes plans h (.field o typeName field data r) h' q)
    {concrete : String} (hdemand : demand plans.graph typeName field data = .fill concrete) :
    (∃ x r', h.kept? o field.wireName concrete data = some x ∧ r = Except.map (fun _ => false) r' ∧
      Writes plans h (.object x data r') h' q) ∨
    (h.kept? o field.wireName concrete data = none ∧ ∃ r' q',
      Writes plans (h.withObject o field.wireName concrete) (.object h.nextObject data r') h' q') := by
  cases hw with
  | halt hhalt =>
      cases hhalt with
      | refused hrefuse => cases hdemand.symm.trans hrefuse
  | store hstore => cases hdemand.symm.trans hstore
  | keep hfill hkept hinner =>
      cases hdemand.symm.trans hfill
      exact .inl ⟨_, _, hkept, rfl, hinner⟩
  | replace hfill hkept hinner =>
      cases hdemand.symm.trans hfill
      exact .inr ⟨hkept, _, _, hinner⟩
  | reuse harrange => cases hdemand.symm.trans harrange
  | attach harrange => cases hdemand.symm.trans harrange

/-- A kept object stays where it is while data is written into it. -/
theorem Writes.slot_of_keep (ht : h.Tidy) {r : Except PatchError Bool}
    (hw : Writes plans h (.field o typeName field data r) h' q) (hslot : h.slot o field.wireName = .object x)
    (hdemand : demand plans.graph typeName field data = .fill (h.object x).typeName)
    (hid : sameIdentity (h.object x) data = true) : h'.slot o field.wireName = .object x := by
  have hkept := Heap.kept?_of_slot hslot data
  rw [if_pos hid] at hkept
  rcases hw.cases_fill hdemand with ⟨y, r', hkept', -, hinner⟩ | ⟨hnone, -⟩
  · obtain rfl : x = y := Option.some.inj (hkept.symm.trans hkept')
    rw [hinner.spares.slot (Heap.hasObject_of_slot hslot nofun) (ht.not_below_object hslot), hslot]
  · cases hkept.symm.trans hnone

/-- What is of another type or has another id is replaced by a new object. -/
theorem Writes.slot_of_replace (hs : h.Sound plans) (hst : h.Writable plans o typeName [field])
    {r : Except PatchError Bool} (hw : Writes plans h (.field o typeName field data r) h' q)
    {concrete : String} (hdemand : demand plans.graph typeName field data = .fill concrete)
    (hnone : h.kept? o field.wireName concrete data = none) :
    h'.slot o field.wireName = .object h.nextObject ∧ (h'.object h.nextObject).typeName = concrete := by
  rcases hw.cases_fill hdemand with ⟨x, -, hkept, -⟩ | ⟨-, r', q', hinner⟩
  · cases hnone.symm.trans hkept
  · have ht := (hs.withObject hst hdemand).tidy
    have hslot := h.slot_withObject_self o field.wireName concrete
    constructor
    · rw [hinner.spares.slot (Heap.hasObject_of_slot hslot nofun) (ht.not_below_object hslot), hslot]
    · rw [hinner.evolves.typeName (ht.object hslot).2]
      simp [Heap.withObject, Heap.object_newObject]

/-- An object has the same identity after another field was written. -/
theorem Writes.sameIdentity_of_other (ht : h.Tidy) {r : Except PatchError Bool} {f : FieldPlan}
    (hw : Writes plans h (.field o typeName f data r) h' q) (hslot : h.slot o field.wireName = .object x)
    (hne : f.wireName ≠ field.wireName) : h'.slot o field.wireName = .object x ∧
      (h'.object x).typeName = (h.object x).typeName ∧
      sameIdentity (h'.object x) d = sameIdentity (h.object x) d := by
  have hnot : field.wireName ∉ [f.wireName] := by simp [hne.symm]
  have hsame : h.Same h' x := by
    apply hw.spares.same_field ht hw.evolves hnot
    rw [hslot]
    exact List.mem_singleton_self x
  refine ⟨?_, hsame.typeName .refl, ?_⟩
  · rw [hw.spares.slot (Heap.hasObject_of_slot hslot nofun) (ht.not_within hnot), hslot]
  · rw [sameIdentity, sameIdentity, Heap.id?_congr (hsame.slot .refl Instance.idField)]

/-- A field does not lose the object that it keeps when it is written among others. -/
theorem Writes.slot_of_keeps (hd : plans.Distinct) {fields : List FieldPlan}
    {r : Except PatchError (List String)}
    (hw : Writes plans h (.fields o typeName fields data r) h' q) (hs : h.Sound plans)
    (hst : h.Writable plans o typeName fields) (hone : ∀ f ∈ fields, f.wireName = field.wireName → f = field)
    (hslot : h.slot o field.wireName = .object x) (hget : data.get? field.wireName = some d)
    (hdemand : demand plans.graph typeName field d = .fill (h.object x).typeName)
    (hid : sameIdentity (h.object x) d = true) : h'.slot o field.wireName = .object x := by
  induction fields generalizing h r q with
  | nil =>
      cases hw with
      | halt hhalt => exact hslot
  | cons f rest ih =>
      have hlater : ∀ g ∈ rest, g.wireName = field.wireName → g = field := fun g hg =>
        hone g (List.mem_cons_of_mem _ hg)
      by_cases hf : f.wireName = field.wireName
      · obtain rfl := hone f List.mem_cons_self hf
        cases hw with
        | halt hhalt => cases hhalt
        | skip hnone => cases hget.symm.trans hnone
        | stop hget' hwrite =>
            cases hget.symm.trans hget'
            exact hwrite.slot_of_keep hs.tidy hslot hdemand hid
        | next hget' hwrite hwrites =>
            cases hget.symm.trans hget'
            have hslot₁ := hwrite.slot_of_keep hs.tidy hslot hdemand hid
            have hs₁ := (hst.next hd hs hwrite).1
            -- the later fields have other names
            have hnot := hs₁.tidy.not_within (o := o) (Heap.Writable.not_mem_rest hd hst)
            rw [hwrites.spares.slot (Heap.hasObject_of_slot hslot₁ nofun) hnot, hslot₁]
      · cases hw with
        | halt hhalt => cases hhalt
        | skip _ hwrites => exact ih hwrites hs hst.rest hlater hslot hdemand hid
        | stop _ hwrite => exact (hwrite.sameIdentity_of_other hs.tidy (d := d) hslot hf).1
        | next _ hwrite hwrites =>
            obtain ⟨hslot₁, htype, hsame⟩ := hwrite.sameIdentity_of_other hs.tidy (d := d) hslot hf
            obtain ⟨hs₁, hst₁⟩ := hst.next hd hs hwrite
            apply ih hwrites hs₁ hst₁ hlater hslot₁
            · rw [htype, hdemand]
            · rw [hsame, hid]

/-- **When a field keeps its object.** -/
theorem keepsIn_iff (hd : plans.Distinct) (hs : h.Sound plans) {plan : TypePlan}
    (hplan : plans.get? (h.object o).typeName = some plan) (hfield : field ∈ plan.fields)
    (hslot : h.slot o field.wireName = .object x)
    (hdemand : demand plans.graph (h.object o).typeName field data = .fill (h.object x).typeName) :
    h.KeepsIn plans o field.wireName x data ↔ sameIdentity (h.object x) data = true := by
  have ho := Heap.hasObject_of_slot hslot nofun
  have hst := Heap.Writable.of_plan ho hplan
  have hkept := Heap.kept?_of_slot hslot data
  constructor
  · intro hkeeps
    by_contra hid
    rw [if_neg hid] at hkept
    obtain ⟨r, h', q, hw⟩ := exists_writes_field (follows plans data) (fun _ _ _ _ => follows plans _) o
      (h.object o).typeName field h
    have houtcome := ((Writes.object hplan (hw.single (hd hplan) hfield)).runs).outcome_eq
    have hstay := hkeeps.slot _ (get?_single field.wireName data)
    rw [houtcome,
      (hw.slot_of_replace hs (hst.sublist (List.singleton_sublist.2 hfield)) hdemand hkept).1] at hstay
    have hmade := (hs.tidy.object hslot).2
    cases hstay
    exact h.not_hasObject_nextObject hmade
  · intro hid
    rw [if_pos hid] at hkept
    have hstays : ∀ d, d.get? field.wireName = some data → ∃ r h' q, Writes plans h (.object o d r) h' q ∧
        h'.slot o field.wireName = .object x := by
      intro d hget
      obtain ⟨r, h', q, hw⟩ := follows plans d o h
      refine ⟨r, h', q, hw, ?_⟩
      cases hw with
      | halt hhalt =>
          cases hhalt with
          | unknownType hnone => cases hplan.symm.trans hnone
          | expectedObject _ hother =>
              cases d with
              | object members => exact absurd rfl (hother members)
              | _ => cases hget
      | object hplan' hwrites =>
          cases hplan.symm.trans hplan'
          have hone : ∀ f ∈ plan.fields, f.wireName = field.wireName → f = field := fun f hf heq =>
            List.inj_on_of_nodup_map (hd hplan) hf hfield heq
          exact hwrites.slot_of_keeps hd hs hst hone hslot hget hdemand hid
    refine ⟨?_, fun d hget => ?_, fun d hget => ?_⟩
    · have hsingle := (Writes.keep hdemand hkept (writes_patch plans x data h)).single (hd hplan) hfield
      rw [((Writes.object hplan hsingle).runs).outcome_eq]
      cases (outcome (patch plans data x) h).1 <;> rfl
    · obtain ⟨r, h', q, hw, hstay⟩ := hstays d hget
      rw [hw.runs.outcome_eq, hstay]
    · obtain ⟨r, h', q, hw, hstay⟩ := hstays d hget
      obtain ⟨htells, hreports⟩ := hw.tells_reports hd hs ho
      have hcount := htells.field o field.wireName
      rw [hslot, hstay, if_pos rfl] at hcount
      rw [hw.runs.outcome_eq]
      refine ⟨List.count_eq_zero.1 hcount, fun changes hok => ?_⟩
      rw [← hreports changes hok, ← List.count_eq_zero, count_ownFields, hcount]

/-- Data that names a type and has an id. -/
def identified (typeName id : String) : Json :=
  .object [(typeNameField, .string typeName), (Instance.idField, .string id)]

/-- What a field asks of data does not depend on more than the type that the data names. -/
theorem demand_identified {graph : TypeGraph} {concrete : String}
    (hdemand : demand graph typeName field data = .fill concrete) (id : String) :
    demand graph typeName field (identified concrete id) = .fill concrete := by
  have hasks := demands graph typeName field data
  rw [hdemand] at hasks
  cases hasks with
  | object members hkind => simp only [demand, hkind, identified]
  | @member target concrete members hkind hconcrete =>
      have hagain : concreteType graph target (identified concrete id) = .ok concrete :=
        if_pos (possible_of_concreteType hconcrete)
      rw [identified] at hagain ⊢
      simp only [demand, hkind, hagain]

theorem wireId?_identified (concrete id : String) : wireId? (identified concrete id) = some id := rfl

theorem Reached.of_writes (hr : Reached plans h) (ho : h.HasObject o) {r : Except PatchError (List String)}
    (hw : Writes plans h (.object o data r) h' q) : Reached plans h' := by
  have hreached := Reached.patch data hr ho
  rwa [hw.runs.outcome_eq] at hreached

/-- A text under the name `id` can be written. -/
theorem exists_id (hd : plans.Distinct) {target : TypePlan}
    (htarget : plans.get? (h.object x).typeName = some target)
    (htext : target.HasTextId) : ∃ r h' q id,
      Writes plans h (.object x (.object [(Instance.idField, .string "")]) r) h' q ∧
        (h'.object x).id? = some id := by
  obtain ⟨idField, hidField, hname, leaf, hkind, htext⟩ := htext
  obtain ⟨id, hid⟩ := Leaf.convertOrDefault_of_isText htext (.string "")
  have hdemand := demand_leaf hkind plans.graph (h.object x).typeName (.string "")
  have hwrite := (Writes.object htarget ((Writes.store hdemand).single (hd htarget) hidField))
  rw [hname] at hwrite
  refine ⟨_, _, _, id, hwrite, ?_⟩
  rw [Heap.id?_eq_some, Heap.slot_write, if_pos ⟨rfl, rfl⟩, leafSlot, hid]
  intro hnull
  cases hnull

/-- An object of a type with a text under the name `id` can lose its place. -/
theorem exists_not_keepsIn (hd : plans.Distinct) {plan target : TypePlan} {concrete : String}
    (hplan : plans.get? typeName = some plan) (hfield : field ∈ plan.fields)
    (htarget : plans.get? concrete = some target) (htext : target.HasTextId)
    (hdemand : demand plans.graph typeName field data = .fill concrete) :
    ∃ h o x d, Reached plans h ∧ (h.object o).typeName = typeName ∧ h.slot o field.wireName = .object x ∧
      (h.object x).typeName = concrete ∧ demand plans.graph typeName field d = .fill concrete ∧
      ¬h.KeepsIn plans o field.wireName x d := by
  -- an object of the owning type gets an object in its field, which then gets an id
  obtain ⟨h, o, hr, ho, rfl, hempty⟩ : ∃ h o, Reached plans h ∧ h.HasObject o ∧
      (h.object o).typeName = typeName ∧
      h.slot o field.wireName = .null :=
    ⟨(Heap.empty.newObject typeName).2, ⟨0⟩, .newObject typeName .empty, Nat.zero_lt_one, rfl, rfl⟩
  have hnone : h.kept? o field.wireName concrete data = none := by
    refine Option.eq_none_iff_forall_ne_some.2 fun x hkept => ?_
    rw [(Heap.slot_of_kept hkept).1] at hempty
    cases hempty
  obtain ⟨r₁, h₁, q₁, hwrite⟩ := exists_writes_field (follows plans data) (fun _ _ _ _ => follows plans _) o
    (h.object o).typeName field h
  have hst := (Heap.Writable.of_plan ho hplan).sublist (List.singleton_sublist.2 hfield)
  obtain ⟨hslot₁, htype₁⟩ := hwrite.slot_of_replace (hr.sound hd) hst hdemand hnone
  have hr₁ : Reached plans h₁ := hr.of_writes ho (.object hplan (hwrite.single (hd hplan) hfield))
  have hmade₁ := ((hr₁.sound hd).tidy.object hslot₁).2
  obtain ⟨r₂, h₂, q₂, id, hwrite₂, hid⟩ := exists_id hd (htype₁ ▸ htarget) htext
  have hslot₂ : h₂.slot o field.wireName = .object h.nextObject := by
    rw [hwrite₂.spares.slot (Heap.hasObject_of_slot hslot₁ nofun)
      ((hr₁.sound hd).tidy.not_below_object hslot₁),
      hslot₁]
  have howner₂ : (h₂.object o).typeName = (h.object o).typeName :=
    (hwrite.evolves.trans hwrite₂.evolves).typeName ho
  have htype₂ : (h₂.object h.nextObject).typeName = concrete := (hwrite₂.evolves.typeName hmade₁).trans htype₁
  have hr₂ : Reached plans h₂ := hr₁.of_writes hmade₁ hwrite₂
  have hdemand₂ := demand_identified hdemand (id ++ "'")
  refine ⟨h₂, o, h.nextObject, identified concrete (id ++ "'"), hr₂, howner₂, hslot₂, htype₂, hdemand₂, ?_⟩
  intro hkeeps
  subst htype₂
  rw [← howner₂] at hplan hdemand₂
  have hsame := (keepsIn_iff hd (hr₂.sound hd) hplan hfield hslot₂ hdemand₂).1 hkeeps
  rw [sameIdentity_iff, hid, wireId?_identified] at hsame
  rcases hsame with hsame | hsame | hsame
  · cases hsame
  · cases hsame
  · have hlength := congrArg String.length (Option.some.inj hsame)
    simp [String.length_append] at hlength

variable {schema : Introspection.Schema} {graph : TypeGraph} {scalars : Registry}

/-- **When objects keep their place**: a field keeps its object for data of the same type exactly if
the data has no id, the object has none, or the two are the same text. It does so for all data exactly
if objects of that type do not have a text under the name `id`, even if it is not of the type `ID`. -/
theorem patch_keeps_iff (hgraph : TypeGraph.build schema = .ok graph)
    (hplans : Plans.build graph scalars = .ok plans) :
    (∀ {h : Heap} {o x : ObjectId} {plan : TypePlan} {field : FieldPlan} {data : Json}, Reached plans h →
      plans.get? (h.object o).typeName = some plan → field ∈ plan.fields →
      h.slot o field.wireName = .object x →
      demand graph (h.object o).typeName field data = .fill (h.object x).typeName →
        (h.KeepsIn plans o field.wireName x data ↔
          wireId? data = none ∨ (h.object x).id? = none ∨ (h.object x).id? = wireId? data)) ∧
    ∀ {owner concrete : String} {plan target : TypePlan} {field : FieldPlan} {sample : Json},
      plans.get? owner = some plan → field ∈ plan.fields → plans.get? concrete = some target →
      demand graph owner field sample = .fill concrete →
        ((∀ {h : Heap} {o x : ObjectId} {data : Json}, Reached plans h → (h.object o).typeName = owner →
          h.slot o field.wireName = .object x → (h.object x).typeName = concrete →
          demand graph owner field data = .fill concrete → h.KeepsIn plans o field.wireName x data) ↔
        ¬target.HasTextId) := by
  have hd : plans.Distinct := Plans.distinct_of_build hgraph hplans
  obtain rfl := Plans.graph_of_build hplans
  refine ⟨fun hr hplan hfield hslot hdemand => ?_,
    fun hplan hfield htarget hsample => ⟨fun hall htext => ?_, ?_⟩⟩
  · rw [keepsIn_iff hd (hr.sound hd) hplan hfield hslot hdemand, sameIdentity_iff]
  · obtain ⟨h, o, x, d, hr, howner, hslot, htype, hdemand, hnot⟩ :=
      exists_not_keepsIn hd hplan hfield htarget htext hsample
    exact hnot (hall hr howner hslot htype hdemand)
  · rintro hnone h o x data hr rfl hslot rfl hdemand
    rw [keepsIn_iff hd (hr.sound hd) hplan hfield hslot hdemand, sameIdentity_iff]
    refine .inr (.inl (Option.eq_none_iff_forall_ne_some.2 fun id hid => hnone ?_))
    exact (hr.sound hd).typed.hasTextId htarget hid

section Sample

/-- Users whose `id` is a text like any other. -/
def plainIdSchema : Introspection.Schema :=
  let named (name : String) : Introspection.Reference := .mk .object (some name) none
  ⟨none, none, none, [sampleObject "Query" [sampleField "me" (named "User")],
    sampleObject "User" [sampleField "id" (named "String"), sampleField "name" (named "String")]]⟩

def plainIdGraph : TypeGraph :=
  match TypeGraph.build plainIdSchema with
  | .ok graph => graph
  | .error _ => ⟨.empty, "", none, none⟩

def plainIdPlans : Plans :=
  match Plans.build plainIdGraph .standard with
  | .ok plans => plans
  | .error _ => ⟨plainIdGraph, .standard, .empty⟩

theorem build_plainIdSchema : TypeGraph.build plainIdSchema = .ok plainIdGraph := rfl

theorem build_plainIdPlans : Plans.build plainIdGraph .standard = .ok plainIdPlans := rfl

/-- A user with the text `a` under the name `id`. -/
def meHeap : Heap :=
  (outcome (patch plainIdPlans (.object [("me", .object [("id", .string "a")])]) ⟨0⟩) sampleHeap).2.1

theorem reached_meHeap : Reached plainIdPlans meHeap := .patch _ (reached_sampleHeap _) hasObject_sampleHeap

theorem slot_meHeap : meHeap.slot ⟨0⟩ "me" = .object ⟨1⟩ := by decide +kernel

theorem typeName_meHeap : (meHeap.object ⟨0⟩).typeName = "Query" ∧ (meHeap.object ⟨1⟩).typeName = "User" := by
  decide +kernel

theorem id?_meHeap : (meHeap.object ⟨1⟩).id? = some "a" := by decide +kernel

/-- The field that holds the user. -/
def mePlan : FieldPlan := ⟨"me", "me", .object "User", true, false⟩

theorem get?_meHeap : plainIdPlans.get? (meHeap.object ⟨0⟩).typeName = some ⟨"Query", [mePlan]⟩ := by
  rw [typeName_meHeap.1]
  rfl

theorem demand_me (members : List (String × Json)) :
    demand plainIdGraph (meHeap.object ⟨0⟩).typeName mePlan (.object members) =
      .fill (meHeap.object ⟨1⟩).typeName := by
  rw [typeName_meHeap.2]
  rfl

/-- A user stays for data without an id, and not for data with another text under that name. -/
theorem patch_keeps_me : meHeap.KeepsIn plainIdPlans ⟨0⟩ "me" ⟨1⟩ (.object [("name", .string "Ann")]) ∧
    ¬meHeap.KeepsIn plainIdPlans ⟨0⟩ "me" ⟨1⟩ (.object [("id", .string "b")]) := by
  have hkeeps : ∀ members, meHeap.KeepsIn plainIdPlans ⟨0⟩ "me" ⟨1⟩ (.object members) ↔
      wireId? (.object members) = none ∨ (meHeap.object ⟨1⟩).id? = none ∨
        (meHeap.object ⟨1⟩).id? = wireId? (.object members) := fun members =>
    (patch_keeps_iff build_plainIdSchema build_plainIdPlans).1 reached_meHeap get?_meHeap
      List.mem_cons_self slot_meHeap
      (demand_me members)
  rw [hkeeps, hkeeps, id?_meHeap]
  decide

/-- A user has no field of the type `ID`, and loses the place all the same. -/
theorem not_patch_keeps :
    ¬∀ {schema : Introspection.Schema} {graph : TypeGraph} {scalars : Registry} {plans : Plans} {h : Heap}
      {o x : ObjectId} {plan : TypePlan} {field : FieldPlan} {data : Json} {t : TypeDefinition},
      TypeGraph.build schema = .ok graph → Plans.build graph scalars = .ok plans → Reached plans h →
      plans.get? (h.object o).typeName = some plan → field ∈ plan.fields →
      h.slot o field.wireName = .object x →
      graph.get? (h.object x).typeName = some t → t.hasId = false →
      demand graph (h.object o).typeName field data = .fill (h.object x).typeName →
        h.KeepsIn plans o field.wireName x data := by
  intro hall
  have htype : ∃ t, plainIdGraph.get? (meHeap.object ⟨1⟩).typeName = some t ∧ t.hasId = false := by
    rw [typeName_meHeap.2]
    exact ⟨_, rfl, rfl⟩
  obtain ⟨t, ht, hid⟩ := htype
  have hkeeps :=
    hall build_plainIdSchema build_plainIdPlans reached_meHeap get?_meHeap List.mem_cons_self slot_meHeap
    ht hid (demand_me [("id", .string "b")])
  have hlost :
      (outcome (patch plainIdPlans (.object [("me", .object [("id", .string "b")])]) ⟨0⟩) meHeap).2.1.slot
      ⟨0⟩ "me" = .object ⟨2⟩ := by decide +kernel
  have hstays := hkeeps.slot _ (get?_single "me" _)
  exact absurd (hlost.symm.trans hstays) (by decide)

end Sample

end GraphClient.Live
