import GraphClient.Proofs.Live.Merge
import GraphClient.Proofs.Live.Plans

/-! Trees that are settled for data: everything that the data asks for is there already, and in lists at
the right places. Merging gives such a tree if ids in the data can be found again: those that a field
reads are accepted by it, and entries of a keyed list have different ids. One more thing is asked of the
schema. Ids are told apart as texts, so entries of a keyed list that have ids are not found again where
the type `ID` is an enumeration. -/

namespace GraphClient.Live

variable {plans : Plans}

/-- That data for an object is inside of other such data, each with the type of its object. -/
inductive Inside (plans : Plans) : String → Json → String → Json → Prop
  | here {typeName : String} {data : Json} : Inside plans typeName data typeName data
  | object {typeName concrete inner : String} {data d e : Json} {plan : TypePlan} {field : FieldPlan}
      (hplan : plans.get? typeName = some plan) (hfield : field ∈ plan.fields)
      (hget : data.get? field.wireName = some d)
      (hdemand : demand plans.graph typeName field d = .fill concrete)
      (hinside : Inside plans concrete d inner e) : Inside plans typeName data inner e
  | item {typeName element concrete inner : String} {data d e item : Json} {plan : TypePlan}
      {field : FieldPlan} {keyed : Bool} {items : List Json}
      (hplan : plans.get? typeName = some plan) (hfield : field ∈ plan.fields)
      (hget : data.get? field.wireName = some d)
      (hdemand : demand plans.graph typeName field d = .arrange element keyed items) (hitem : item ∈ items)
      (hconcrete : concreteElement plans.graph element item = .ok concrete)
      (hinside : Inside plans concrete item inner e) : Inside plans typeName data inner e

/-- That something is true of data for an object and of all such data inside of it. -/
def Everywhere (plans : Plans) (P : String → Json → Prop) (typeName : String) (data : Json) : Prop :=
  ∀ {inner e}, Inside plans typeName data inner e → P inner e

theorem Everywhere.of_fields {P : String → Json → Prop} {typeName : String} {data : Json} {plan : TypePlan}
    (hplan : plans.get? typeName = some plan) (hhere : P typeName data)
    (hfields : ∀ field ∈ plan.fields, ∀ d, data.get? field.wireName = some d →
      match demand plans.graph typeName field d with
      | .fill concrete => Everywhere plans P concrete d
      | .arrange element _ items => ∀ item ∈ items, ∀ concrete,
          concreteElement plans.graph element item = .ok concrete → Everywhere plans P concrete item
      | .store _ | .refuse _ => True) : Everywhere plans P typeName data := by
  intro inner e hinside
  cases hinside with
  | here => exact hhere
  | object hplan' hfield hget hdemand hinside =>
      obtain rfl := Option.some.inj (hplan.symm.trans hplan')
      have hinner := hfields _ hfield _ hget
      rw [hdemand] at hinner
      exact hinner hinside
  | item hplan' hfield hget hdemand hitem hconcrete hinside =>
      obtain rfl := Option.some.inj (hplan.symm.trans hplan')
      have hinner := hfields _ hfield _ hget
      rw [hdemand] at hinner
      exact hinner _ hitem _ hconcrete hinside

/-- That a member of data holds the entries of a keyed list. -/
def HasKeyed (plans : Plans) (typeName : String) (data : Json) (items : List Json) : Prop :=
  ∃ plan field d element, plans.get? typeName = some plan ∧ field ∈ plan.fields ∧
    data.get? field.wireName = some d ∧ demand plans.graph typeName field d = .arrange element true items

/-- That the id in data is accepted by the leaf that it is for, or null if that is nullable. -/
def AcceptsId (plans : Plans) (typeName : String) (data : Json) : Prop :=
  ∀ plan field leaf d, plans.get? typeName = some plan → field ∈ plan.fields →
    field.wireName = Instance.idField → field.kind = .leaf leaf → data.get? Instance.idField = some d →
      (d = .null ∧ field.nullable = true) ∨ ∃ v, leaf.convert d = .ok v

/-- That entries of a keyed list have different ids. -/
def DistinctIds (plans : Plans) (typeName : String) (data : Json) : Prop :=
  ∀ items, HasKeyed plans typeName data items → (items.filterMap wireId?).Nodup

/-- That entries of a keyed list have no ids. -/
def NoIds (plans : Plans) (typeName : String) (data : Json) : Prop :=
  ∀ items, HasKeyed plans typeName data items → ∀ item ∈ items, wireId? item = none

/-- That entries find the trees at their positions. -/
structure Arranged (graph : TypeGraph) (element : String) (keyed : Bool) (items : List Json)
    (trees : List Snapshot) : Prop where
  length : trees.length = items.length
  distinct : keyed = true → (items.filterMap wireId?).Nodup
  type : ∀ {i : Nat} {item : Json} {tree : Snapshot}, items[i]? = some item → trees[i]? = some tree →
    ∃ concrete, concreteElement graph element item = .ok concrete ∧ tree.typeName? = some concrete
  id : ∀ {i : Nat} {item : Json} {tree : Snapshot}, items[i]? = some item → trees[i]? = some tree →
    keyed = true → tree.id? = wireId? item

mutual

/-- That merging data into a tree would change nothing, and that the data finds its objects there. -/
inductive Settled (plans : Plans) : Json → Snapshot → Prop
  | object {members : List (String × Json)} {typeName : String} {fields : Table Snapshot} {plan : TypePlan}
      (hplan : plans.get? typeName = some plan)
      (hfields : ∀ field ∈ plan.fields, ∀ d, (Json.object members).get? field.wireName = some d →
        SettledField plans typeName field d (fields.get? field.wireName)) :
      Settled plans (.object members) (.object typeName fields)

/-- The same for a field and the tree in it. -/
inductive SettledField (plans : Plans) : String → FieldPlan → Json → Option Snapshot → Prop
  | store {typeName : String} {field : FieldPlan} {data : Json} {slot : Slot} {tree : Option Snapshot}
      (hdemand : demand plans.graph typeName field data = .store slot)
      (htree : tree.getD .null = .ofPlain slot) : SettledField plans typeName field data tree
  | fill {typeName concrete : String} {field : FieldPlan} {data : Json} {tree : Snapshot}
      (hdemand : demand plans.graph typeName field data = .fill concrete)
      (hsuits : tree.suits concrete data = true) (hinner : Settled plans data tree) :
      SettledField plans typeName field data (some tree)
  | arrange {typeName element : String} {field : FieldPlan} {data : Json} {keyed : Bool} {items : List Json}
      {trees : List Snapshot}
      (hdemand : demand plans.graph typeName field data = .arrange element keyed items)
      (harranged : Arranged plans.graph element keyed items trees)
      (hinner : ∀ (i : Nat) (item : Json) (tree : Snapshot), items[i]? = some item → trees[i]? = some tree →
        Settled plans item tree) :
      SettledField plans typeName field data (some (.list trees))

end

section Fields

variable {graph : TypeGraph} {typeName : String} {field : FieldPlan} {data : Json} {merger : Json → Merger}
  {fields fields' : Table Snapshot}

theorem Snapshot.get?_put_of_ne {name other : String} (hne : other ≠ name) (fields : Table Snapshot)
    (tree : Snapshot) : (Snapshot.put fields name tree).get? other = fields.get? other := by
  cases tree with
  | null =>
      rw [put_null]
      split
      · rw [Table.get?_insert, if_neg hne]
      · rfl
  | _ => exact (Table.get?_insert ..).trans (if_neg hne)

theorem Snapshot.get?_put_self (fields : Table Snapshot) (name : String) {tree : Snapshot}
    (hne : tree ≠ .null) :
    (Snapshot.put fields name tree).get? name = some tree := by
  rw [put_of_ne_null hne, Table.get?_insert, if_pos rfl]

theorem Snapshot.getD_put_self (fields : Table Snapshot) (name : String) (tree : Snapshot) :
    ((Snapshot.put fields name tree).get? name).getD .null = tree := by
  by_cases hnull : tree = .null
  · subst hnull
    rw [put_null]
    split
    · rw [Table.get?_insert, if_pos rfl, Option.getD_some]
    · rename_i hcontains
      rw [Table.contains, Bool.not_eq_true, Option.isSome_eq_false_iff,
        Option.isNone_iff_eq_none] at hcontains
      rw [hcontains, Option.getD_none]
  · rw [get?_put_self fields name hnull, Option.getD_some]

/-- Merging the data of a field puts a tree into it. -/
theorem exists_put_of_mergeField
    (hmerge : mergeField graph typeName field data (fun d _ => merger d) fields = .ok fields') :
    ∃ tree, fields' = Snapshot.put fields field.wireName tree := by
  cases hdemand : demand graph typeName field data with
  | store slot =>
      rw [mergeField_of_store hdemand, Except.ok.injEq] at hmerge
      exact ⟨_, hmerge.symm⟩
  | fill concrete =>
      rw [mergeField_of_fill hdemand] at hmerge
      obtain ⟨tree, -, heq⟩ := Except.map_eq_ok.1 hmerge
      exact ⟨tree, heq.symm⟩
  | arrange element keyed items =>
      rw [mergeField_of_arrange hdemand] at hmerge
      obtain ⟨trees, -, heq⟩ := Except.map_eq_ok.1 hmerge
      exact ⟨.list trees, heq.symm⟩
  | refuse e =>
      rw [mergeField_of_refuse hdemand] at hmerge
      cases hmerge

/-- What is put into the fields of an object: each field has what its own data puts there. -/
theorem get?_of_mergeFields {plan : List FieldPlan} (hnodup : (plan.map (·.wireName)).Nodup)
    (hmerge : mergeFields graph typeName data (fun d _ => merger d) plan fields = .ok fields') :
    (∀ name, (∀ field ∈ plan, field.wireName = name → data.get? name = none) →
      fields'.get? name = fields.get? name) ∧
    ∀ field ∈ plan, ∀ d, data.get? field.wireName = some d → ∃ before after,
      mergeField graph typeName field d (fun d _ => merger d) before = .ok after ∧
        before.get? field.wireName = fields.get? field.wireName ∧
        fields'.get? field.wireName = after.get? field.wireName := by
  induction plan generalizing fields with
  | nil =>
      cases hmerge
      exact ⟨fun _ _ => rfl, fun field hfield => absurd hfield List.not_mem_nil⟩
  | cons first rest ih =>
      rw [List.map_cons, List.nodup_cons] at hnodup
      rw [mergeFields] at hmerge
      split at hmerge
      · rename_i hget
        obtain ⟨hother, hfields⟩ := ih hnodup.2 hmerge
        refine ⟨fun name hname => hother name fun field hfield => hname field (List.mem_cons_of_mem _ hfield),
          fun field hfield d hd => ?_⟩
        rcases List.mem_cons.1 hfield with rfl | hfield
        · rw [hget] at hd
          cases hd
        · exact hfields field hfield d hd
      · rename_i incoming hget
        obtain ⟨middle, hfirst, hmerge⟩ := Except.bind_eq_ok.1 hmerge
        obtain ⟨hother, hfields⟩ := ih hnodup.2 hmerge
        obtain ⟨tree, rfl⟩ := exists_put_of_mergeField hfirst
        refine ⟨fun name hname => ?_, fun field hfield d hd => ?_⟩
        · rw [hother name fun field hfield => hname field (List.mem_cons_of_mem _ hfield),
            Snapshot.get?_put_of_ne]
          rintro rfl
          rw [hname first List.mem_cons_self rfl] at hget
          cases hget
        · rcases List.mem_cons.1 hfield with rfl | hfield
          · rw [hget, Option.some.injEq] at hd
            subst hd
            refine ⟨fields, _, hfirst, rfl, hother _ fun other hmem heq => ?_⟩
            exact absurd (List.mem_map.2 ⟨other, hmem, heq⟩) hnodup.1
          · obtain ⟨before, after, hmerged, hbefore, hafter⟩ := hfields field hfield d hd
            refine ⟨before, after, hmerged,
              hbefore.trans (Snapshot.get?_put_of_ne (fun heq => ?_) ..), hafter⟩
            exact hnodup.1 (List.mem_map.2 ⟨field, hfield, heq⟩)

end Fields

theorem merge_eq_ok {data : Json} {tree tree' : Snapshot} {typeName : String}
    (htype : tree.typeName? = some typeName) (hmerge : merge plans data tree = .ok tree') :
    ∃ members fields fields' plan, data = .object members ∧ tree = .object typeName fields ∧
      tree' = .object typeName fields' ∧ plans.get? typeName = some plan ∧
        mergeFields plans.graph typeName data (fun d _ => merge plans d) plan.fields fields =
          .ok fields' := by
  cases tree with
  | object own fields =>
      cases htype
      rw [merge, mergeWith] at hmerge
      cases hplan : plans.get? typeName with
      | none =>
          rw [hplan] at hmerge
          cases hmerge
      | some plan =>
          rw [hplan] at hmerge
          cases data with
          | object members =>
              obtain ⟨fields', hfields, heq⟩ := Except.bind_eq_ok.1 hmerge
              cases heq
              exact ⟨members, fields, fields', plan, rfl, rfl, rfl, rfl, hfields⟩
          | _ => cases hmerge
  | _ => cases htype

theorem typeName?_merge {data : Json} {tree tree' : Snapshot} {typeName : String}
    (htype : tree.typeName? = some typeName) (hmerge : merge plans data tree = .ok tree') :
    tree'.typeName? = some typeName := by
  obtain ⟨members, fields, fields', plan, -, -, rfl, -⟩ := merge_eq_ok htype hmerge
  rfl

theorem Snapshot.id?_object {typeName s : String} {fields : Table Snapshot} :
    (object typeName fields).id? = some s ↔ fields.get? Instance.idField = some (.scalar (.string s)) := by
  rw [id?]
  cases fields.get? Instance.idField with
  | none => simp
  | some tree =>
      cases tree with
      | scalar v => cases v <;> simp
      | _ => simp

theorem typeName?_kept {fields : Table Snapshot} {name concrete : String} {data : Json} :
    (((fields.get? name).filter (·.suits concrete data)).getD (.blank concrete)).typeName? =
      some concrete := by
  cases hfilter : (fields.get? name).filter (·.suits concrete data) with
  | none => rfl
  | some tree =>
      have hsuits := (Option.filter_eq_some_iff.1 hfilter).2
      rw [Snapshot.suits, Bool.and_eq_true, decide_eq_true_eq] at hsuits
      exact hsuits.1

/-- An id that is put into a tree is the one of the data. -/
theorem wireId?_of_mergeField {typeName : String} {field : FieldPlan} {data d : Json}
    {before after : Table Snapshot} {s : String} (hname : field.wireName = Instance.idField)
    (hget : data.get? field.wireName = some d)
    (haccepts : ∀ leaf, field.kind = .leaf leaf → (d = .null ∧ field.nullable = true) ∨
      ∃ v, leaf.convert d = .ok v)
    (hmerge : mergeField plans.graph typeName field d (fun d _ => merge plans d) before = .ok after)
    (hid : after.get? field.wireName = some (.scalar (.string s))) : wireId? data = some s := by
  cases hdemand : demand plans.graph typeName field d with
  | store slot =>
      rw [mergeField_of_store hdemand, Except.ok.injEq] at hmerge
      subst hmerge
      have hslot : slot = .scalar (.string s) := by
        have hplain := Snapshot.getD_put_self before field.wireName (.ofPlain slot)
        rw [hid, Option.getD_some] at hplain
        cases slot <;> cases hplain
        rfl
      subst hslot
      obtain ⟨leaf, hkind, -⟩ := holds_of_demand_store hdemand .empty
      rw [demand_leaf hkind, Demand.store.injEq] at hdemand
      have hread : leaf.convert d = .ok (.string s) := by
        rcases haccepts leaf hkind with ⟨rfl, hnullable⟩ | ⟨v, hread⟩
        · rw [leafSlot, if_pos hnullable] at hdemand
          cases hdemand
        · cases d with
          | null => exact absurd hread (leaf.convert_null v)
          | _ =>
              rw [leafSlot, Slot.scalar.injEq, Leaf.convertOrDefault, hread] at hdemand
              · rw [hread, ← hdemand]
              · intro h
                cases h
      rw [hname] at hget
      refine wireId?_eq_some.2 ?_
      rcases Leaf.wire_of_convert_string hread with rfl | ⟨i, rfl, heq⟩
      · exact .inl hget
      · exact .inr ⟨i, hget, heq⟩
  | fill concrete =>
      rw [mergeField_of_fill hdemand] at hmerge
      obtain ⟨tree, hinner, rfl⟩ := Except.map_eq_ok.1 hmerge
      obtain ⟨members, fields, fields', plan, -, -, rfl, -⟩ := merge_eq_ok typeName?_kept hinner
      rw [Snapshot.get?_put_self _ _ Snapshot.noConfusion] at hid
      cases hid
  | arrange element keyed items =>
      rw [mergeField_of_arrange hdemand] at hmerge
      obtain ⟨trees, -, rfl⟩ := Except.map_eq_ok.1 hmerge
      rw [Snapshot.get?_put_self _ _ Snapshot.noConfusion] at hid
      cases hid
  | refuse e =>
      rw [mergeField_of_refuse hdemand] at hmerge
      cases hmerge

/-- Merging gives a tree the id of the data or leaves it the one that it had. -/
theorem id?_merge (hd : plans.Distinct) {data : Json} {tree tree' : Snapshot} {typeName : String}
    (htype : tree.typeName? = some typeName) (hmerge : merge plans data tree = .ok tree')
    (haccepts : AcceptsId plans typeName data) :
    tree'.id? = tree.id? ∨ ∀ s, tree'.id? = some s → wireId? data = some s := by
  obtain ⟨members, fields, fields', plan, rfl, rfl, rfl, hplan, hmerge⟩ := merge_eq_ok htype hmerge
  obtain ⟨hother, hfields⟩ := get?_of_mergeFields (hd hplan) hmerge
  by_cases hhit : ∃ field ∈ plan.fields, field.wireName = Instance.idField ∧
      ((Json.object members).get? field.wireName).isSome
  · obtain ⟨field, hfield, hname, hsome⟩ := hhit
    obtain ⟨d, hget⟩ := Option.isSome_iff_exists.1 hsome
    obtain ⟨before, after, hmerged, -, hafter⟩ := hfields field hfield d hget
    refine .inr fun s hid => ?_
    rw [Snapshot.id?_object, ← hname, hafter] at hid
    exact wireId?_of_mergeField hname hget
      (fun leaf hkind => haccepts plan field leaf d hplan hfield hname hkind (hname ▸ hget)) hmerged hid
  · refine .inl ?_
    rw [Snapshot.id?, Snapshot.id?, hother]
    intro field hfield hname
    rw [← Option.not_isSome_iff_eq_none]
    intro hsome
    exact hhit ⟨field, hfield, hname, hname ▸ hsome⟩

/-- The id of an entry of a keyed list is that of its tree. -/
theorem id?_merge_of_idKind (hd : plans.Distinct) {data : Json} {tree tree' : Snapshot} {typeName s : String}
    {plan : TypePlan} {field : FieldPlan} (htype : tree.typeName? = some typeName)
    (hmerge : merge plans data tree = .ok tree') (hplan : plans.get? typeName = some plan)
    (hfield : field ∈ plan.fields) (hname : field.wireName = Instance.idField)
    (hkind : (∃ target, field.kind = .object target ∨ field.kind = .abstract target) ∨
      field.kind = .leaf (.scalar (.standard .id))) (hwire : wireId? data = some s) : tree'.id? = some s := by
  obtain ⟨members, fields, fields', plan', rfl, rfl, rfl, hplan', hmerge⟩ := merge_eq_ok htype hmerge
  obtain rfl := Option.some.inj (hplan.symm.trans hplan')
  have hget : ∃ d, (Json.object members).get? field.wireName = some d ∧
      (d = .string s ∨ ∃ i, d = .number (.whole i) ∧ toString i = s) := by
    rw [hname]
    rcases wireId?_eq_some.1 hwire with hget | ⟨i, hget, heq⟩
    · exact ⟨_, hget, .inl rfl⟩
    · exact ⟨_, hget, .inr ⟨i, rfl, heq⟩⟩
  obtain ⟨d, hget, hdata⟩ := hget
  obtain ⟨before, after, hmerged, -, hafter⟩ := (get?_of_mergeFields (hd hplan) hmerge).2 field hfield d hget
  rcases hkind with hcomposite | hleaf
  · have hrefuse : demand plans.graph typeName field d =
        .refuse (.invalidData typeName field.wireName .object) := by
      obtain ⟨name, wireName, kind, nullable, isId⟩ := field
      rcases hcomposite with ⟨target, rfl | rfl⟩ <;> rcases hdata with rfl | ⟨i, rfl, -⟩ <;> rfl
    rw [mergeField_of_refuse hrefuse] at hmerged
    cases hmerged
  · have hslot : leafSlot (.scalar (.standard .id)) field.nullable d = .scalar (.string s) := by
      rcases hdata with rfl | ⟨i, rfl, rfl⟩ <;> rfl
    rw [mergeField_of_store ((demand_leaf hleaf _ _ _).trans (congrArg _ hslot)), Except.ok.injEq] at hmerged
    rw [Snapshot.id?_object, ← hname, hafter, ← hmerged]
    exact Snapshot.get?_put_self _ _ Snapshot.noConfusion

/-- A tree that data was merged into is one that the data is about. -/
theorem suits_merge (hd : plans.Distinct) {data : Json} {old : Option Snapshot}
    {tree : Snapshot} {concrete : String}
    (hmerge : merge plans data ((old.filter (·.suits concrete data)).getD (.blank concrete)) = .ok tree)
    (htype : ((old.filter (·.suits concrete data)).getD (.blank concrete)).typeName? = some concrete)
    (haccepts : AcceptsId plans concrete data) : tree.suits concrete data = true := by
  rw [Snapshot.suits, typeName?_merge htype hmerge, decide_eq_true rfl, Bool.true_and]
  cases hwire : wireId? data with
  | none => rfl
  | some s =>
      cases hid : tree.id? with
      | none => rfl
      | some own =>
          apply decide_eq_true
          rcases id?_merge hd htype hmerge haccepts with hsame | hdata
          · rw [hid] at hsame
            cases hfilter : old.filter (·.suits concrete data) with
            | none =>
                rw [hfilter] at hsame
                cases hsame
            | some base =>
                rw [hfilter, Option.getD_some] at hsame
                have hsuits := (Option.filter_eq_some_iff.1 hfilter).2
                rw [Snapshot.suits, Bool.and_eq_true, hwire, ← hsame] at hsuits
                exact of_decide_eq_true hsuits.2
          · have hown := hdata own hid
            rw [hwire, Option.some.injEq] at hown
            exact hown.symm

/-- An entry is merged into a tree of its type, which has no id if the entry of a keyed list has none. -/
theorem getD_matchingTree (old : List Snapshot) (keyed : Bool) (earlier : List String) (position : Nat)
    (concrete : String) (data : Json) :
    ((matchingTree old keyed earlier position concrete data).getD (.blank concrete)).typeName? =
      some concrete ∧ (keyed = true → wireId? data = none →
        ((matchingTree old keyed earlier position concrete data).getD (.blank concrete)).id? = none) := by
  cases hmatch : matchingTree old keyed earlier position concrete data with
  | none => exact ⟨rfl, fun _ _ => rfl⟩
  | some tree =>
      rw [matchingTree, Option.filter_eq_some_iff, decide_eq_true_eq] at hmatch
      refine ⟨hmatch.2, fun hkeyed hwire => ?_⟩
      rw [if_pos hkeyed, hwire] at hmatch
      exact Option.isNone_iff_eq_none.1 (Option.filter_eq_some_iff.1 hmatch.1).2

/-- What becomes of the entries of a list. -/
theorem getElem?_of_mergeEntries {graph : TypeGraph} {element : String} {keyed : Bool} {old : List Snapshot}
    {items : List Json} {merger : Json → Merger} {position : Nat} {earlier : List String}
    {trees : List Snapshot}
    (hmerge : mergeEntries graph element keyed old items (fun d _ => merger d) position earlier = .ok trees) :
    trees.length = items.length ∧ ∀ {i : Nat} {item : Json} {tree : Snapshot}, items[i]? = some item →
      trees[i]? = some tree → ∃ concrete base, concreteElement graph element item = .ok concrete ∧
        merger item base = .ok tree ∧ base.typeName? = some concrete ∧
          (keyed = true → wireId? item = none → base.id? = none) := by
  induction items generalizing position earlier trees with
  | nil =>
      cases hmerge
      exact ⟨rfl, fun hitem => nomatch hitem⟩
  | cons data rest ih =>
      cases hconcrete : concreteElement graph element data with
      | error e =>
          rw [mergeEntries, hconcrete] at hmerge
          cases hmerge
      | ok concrete =>
          rw [mergeEntries_cons hconcrete] at hmerge
          obtain ⟨tree, hfirst, hmerge⟩ := Except.bind_eq_ok.1 hmerge
          obtain ⟨later, hlater, hmerge⟩ := Except.bind_eq_ok.1 hmerge
          cases hmerge
          obtain ⟨hlength, hentries⟩ := ih hlater
          refine ⟨by rw [List.length_cons, List.length_cons, hlength], fun {i item tree'} hitem htree => ?_⟩
          cases i with
          | zero =>
              cases hitem
              cases htree
              obtain ⟨htype, hid⟩ := getD_matchingTree old keyed earlier position concrete data
              exact ⟨concrete, _, hconcrete, hfirst, htype, hid⟩
          | succ i => exact hentries hitem htree

/-- **Merging settles.** -/
theorem merge_settled {schema : Introspection.Schema} {graph : TypeGraph} {scalars : Registry}
    (hgraph : TypeGraph.build schema = .ok graph) (hplans : Plans.build graph scalars = .ok plans)
    (hscalar : scalars.find? "ID" = some (.standard .id)) (data : Json) {tree tree' : Snapshot}
    {typeName : String} (htype : tree.typeName? = some typeName) (hmerge : merge plans data tree = .ok tree')
    (haccepts : Everywhere plans (AcceptsId plans) typeName data)
    (hdistinct : Everywhere plans (DistinctIds plans) typeName data)
    (hids : ¬graph.HasEnumId ∨ Everywhere plans (NoIds plans) typeName data) : Settled plans data tree' := by
  have hd : plans.Distinct := Plans.distinct_of_build hgraph hplans
  have hplansGraph := Plans.graph_of_build hplans
  obtain ⟨members, fields, fields', plan, hdata, rfl, rfl, hplan, hfields⟩ := merge_eq_ok htype hmerge
  rw [hdata]
  refine .object hplan fun field hfield d hget => ?_
  rw [← hdata] at hget
  obtain ⟨before, after, hmerged, -, hafter⟩ := (get?_of_mergeFields (hd hplan) hfields).2 field hfield d hget
  -- data of a field is smaller than the data that has it, which the induction is on
  have smaller := Json.sizeOf_get?_lt hget
  rw [hafter]
  cases hdemand : demand plans.graph typeName field d with
  | store slot =>
      rw [mergeField_of_store hdemand, Except.ok.injEq] at hmerged
      rw [← hmerged]
      exact .store hdemand (Snapshot.getD_put_self ..)
  | fill concrete =>
      rw [mergeField_of_fill hdemand] at hmerged
      obtain ⟨inner, hinner, rfl⟩ := Except.map_eq_ok.1 hmerged
      have hinside {t e} (h : Inside plans concrete d t e) : Inside plans typeName data t e :=
        .object hplan hfield hget hdemand h
      have htype' := typeName?_merge typeName?_kept hinner
      rw [Snapshot.get?_put_self _ _ (by rintro rfl; cases htype')]
      exact .fill hdemand (suits_merge hd hinner typeName?_kept (haccepts (hinside .here)))
        (merge_settled hgraph hplans hscalar d typeName?_kept hinner (fun h => haccepts (hinside h))
          (fun h => hdistinct (hinside h)) (hids.imp_right fun hno _ _ h => hno (hinside h)))
  | arrange element keyed items =>
      rw [mergeField_of_arrange hdemand] at hmerged
      obtain ⟨trees, hentries, rfl⟩ := Except.map_eq_ok.1 hmerged
      obtain ⟨hlength, hentries⟩ := getElem?_of_mergeEntries hentries
      have hkeyed (h : keyed = true) : HasKeyed plans typeName data items := by
        subst h
        exact ⟨plan, field, d, element, hplan, hfield, hget, hdemand⟩
      have hinside {item concrete t e} (hitem : item ∈ items)
          (hconcrete : concreteElement plans.graph element item = .ok concrete)
          (h : Inside plans concrete item t e) : Inside plans typeName data t e :=
        .item hplan hfield hget hdemand hitem hconcrete h
      have hitems {item} (hitem : item ∈ items) : sizeOf item < sizeOf d := by
        obtain rfl := arrange_eq_array hdemand
        exact Json.sizeOf_item_lt hitem
      rw [Snapshot.get?_put_self _ _ Snapshot.noConfusion]
      refine .arrange hdemand ⟨hlength, fun h => hdistinct .here items (hkeyed h), ?_, ?_⟩ ?_
      · intro i item tree hitem htree
        obtain ⟨concrete, base, hconcrete, hinner, htype', -⟩ := hentries hitem htree
        exact ⟨concrete, hconcrete, typeName?_merge htype' hinner⟩
      · intro i item tree hitem htree h
        obtain ⟨concrete, base, hconcrete, hinner, htype', hblank⟩ := hentries hitem htree
        have hmem := List.mem_of_getElem? hitem
        cases hwire : wireId? item with
        | none =>
            rcases id?_merge hd htype' hinner (haccepts (hinside hmem hconcrete .here)) with hsame | hdata
            · rw [hsame, hblank h hwire]
            · cases hid : tree.id? with
              | none => rfl
              | some s => exact absurd (hdata s hid) (by rw [hwire]; exact nofun)
        | some s =>
            rcases hids with hscalarId | hno
            · obtain ⟨_, _, _, plan', -, -, -, hplan', -⟩ := merge_eq_ok htype' hinner
              have hisKeyed : graph.isKeyed element = true := by
                obtain ⟨isAbstract, hkind⟩ := kind_of_demand_arrange hdemand
                rw [← Plans.keyed_of_build hplans hplan hfield hkind, h]
              obtain ⟨idField, hidField, hname, hkind⟩ := Plans.idKind_of_build hgraph hplans hisKeyed
                (hplansGraph ▸ admits_of_concreteElement hconcrete) hplan'
              refine id?_merge_of_idKind hd htype' hinner hplan' hidField hname ?_ hwire
              rcases hkind with ⟨henum, -⟩ | ⟨-, hcomposite | ⟨c, hfind, hleaf⟩⟩
              · exact absurd henum hscalarId
              · exact .inl hcomposite
              · rw [hscalar, Option.some.injEq] at hfind
                exact .inr (hfind ▸ hleaf)
            · rw [hno .here items (hkeyed h) item hmem] at hwire
              cases hwire
      · intro i item tree hitem htree
        obtain ⟨concrete, base, hconcrete, hinner, htype', -⟩ := hentries hitem htree
        have hmem := List.mem_of_getElem? hitem
        have hless := hitems hmem
        exact merge_settled hgraph hplans hscalar item htype' hinner
          (fun h => haccepts (hinside hmem hconcrete h))
          (fun h => hdistinct (hinside hmem hconcrete h))
          (hids.imp_right fun hno _ _ h => hno (hinside hmem hconcrete h))
  | refuse e =>
      rw [mergeField_of_refuse hdemand] at hmerged
      cases hmerged
termination_by sizeOf data
decreasing_by
  all_goals omega

end GraphClient.Live
