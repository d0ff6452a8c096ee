import GraphClient.Proofs.Live.Contents
import GraphClient.Proofs.Live.Refinement
import GraphClient.Proofs.Live.Settled

/-! Refused data. Whether data can be written into an object, and why it is refused otherwise, is told
by the data and the type of the object alone (`patch_ends_alike`). What is there already decides which
objects and lists are kept and which are made, but data is checked in the same order either way, and
what is kept has the type that a new object would have. -/

namespace GraphClient

/-- That two results are both good, or the same error. -/
inductive EndsAlike {ε α β : Type} : Except ε α → Except ε β → Prop
  | ok (a : α) (b : β) : EndsAlike (.ok a) (.ok b)
  | error (e : ε) : EndsAlike (.error e) (.error e)

namespace EndsAlike

variable {ε α β γ δ : Type} {x : Except ε α} {y : Except ε β}

theorem map (halike : EndsAlike x y) (f : α → γ) (k : β → δ) : EndsAlike (x.map f) (y.map k) := by
  cases halike with
  | ok a b => exact .ok _ _
  | error e => exact .error e

/-- Of what is mapped only the good results change. -/
theorem of_map {f : α → γ} {k : β → δ} (halike : EndsAlike (x.map f) (y.map k)) : EndsAlike x y := by
  cases x with
  | ok a =>
      cases y with
      | ok b => exact .ok a b
      | error e => cases halike
  | error e =>
      cases y with
      | ok b => cases halike
      | error e' =>
          cases halike
          exact .error e

theorem bind {f : α → Except ε γ} {k : β → Except ε δ} (halike : EndsAlike x y)
    (hnext : ∀ a b, EndsAlike (f a) (k b)) : EndsAlike (x.bind f) (y.bind k) := by
  cases halike with
  | ok a b => exact hnext a b
  | error e => exact .error e

theorem ok_iff (halike : EndsAlike x y) : (∃ a, x = .ok a) ↔ ∃ b, y = .ok b := by
  cases halike with
  | ok a b => exact ⟨fun _ => ⟨b, rfl⟩, fun _ => ⟨a, rfl⟩⟩
  | error e => exact ⟨nofun, nofun⟩

theorem error_iff (halike : EndsAlike x y) (e : ε) : x = .error e ↔ y = .error e := by
  cases halike with
  | ok a b => exact ⟨nofun, nofun⟩
  | error e' => exact ⟨fun h => by cases h; rfl, fun h => by cases h; rfl⟩

end EndsAlike

namespace Live

variable {plans : Plans}

/-- That data is merged alike into all trees of one type. -/
def MergesAlike (plans : Plans) (data : Json) : Prop :=
  ∀ {tree tree' : Snapshot}, tree.typeName? = tree'.typeName? →
    EndsAlike (merge plans data tree) (merge plans data tree')

/-- Entries are merged alike into any two lists. -/
theorem mergeEntries_alike {items : List Json}
    (hitems : ∀ item ∈ items, MergesAlike plans item) (element : String)
    (keyed : Bool) (old old' : List Snapshot) (position : Nat) (earlier : List String) :
    EndsAlike (mergeEntries plans.graph element keyed old items (fun d _ => merge plans d) position earlier)
      (mergeEntries plans.graph element keyed old' items (fun d _ => merge plans d) position earlier) := by
  induction items generalizing position earlier with
  | nil => exact .ok [] []
  | cons data rest ih =>
      cases hconcrete : concreteElement plans.graph element data with
      | error e =>
          rw [mergeEntries, mergeEntries, hconcrete]
          exact .error e
      | ok concrete =>
          have htype := (getD_matchingTree old keyed earlier position concrete data).1
          have htype' := (getD_matchingTree old' keyed earlier position concrete data).1
          rw [mergeEntries_cons hconcrete, mergeEntries_cons hconcrete]
          refine (hitems data List.mem_cons_self (htype.trans htype'.symm)).bind fun tree tree' => ?_
          have hrest := ih (fun item hitem => hitems item (List.mem_cons_of_mem _ hitem)) (position + 1)
            ((wireId? data).toList ++ earlier)
          exact hrest.bind fun later later' => .ok _ _

/-- A field is merged alike, whatever the fields hold. -/
theorem mergeField_alike {data : Json} (hinner : ∀ d, sizeOf d ≤ sizeOf data → MergesAlike plans d)
    (typeName : String) (field : FieldPlan) (fields fields' : Table Snapshot) :
    EndsAlike (mergeField plans.graph typeName field data (fun d _ => merge plans d) fields)
      (mergeField plans.graph typeName field data (fun d _ => merge plans d) fields') := by
  cases hdemand : demand plans.graph typeName field data with
  | store slot =>
      rw [mergeField_of_store hdemand, mergeField_of_store hdemand]
      exact .ok _ _
  | fill concrete =>
      rw [mergeField_of_fill hdemand, mergeField_of_fill hdemand]
      exact (hinner data (Nat.le_refl _) (typeName?_kept.trans typeName?_kept.symm)).map _ _
  | arrange element keyed items =>
      obtain rfl := arrange_eq_array hdemand
      rw [mergeField_of_arrange hdemand, mergeField_of_arrange hdemand]
      have hitems : ∀ item ∈ items, MergesAlike plans item := fun item hitem =>
        hinner item (Nat.le_of_lt (Json.sizeOf_item_lt hitem))
      exact (mergeEntries_alike hitems element keyed _ _ 0 []).map _ _
  | refuse e =>
      rw [mergeField_of_refuse hdemand, mergeField_of_refuse hdemand]
      exact .error e

theorem mergeFields_alike {data : Json} (hinner : ∀ d, sizeOf d < sizeOf data → MergesAlike plans d)
    (typeName : String) (plan : List FieldPlan) (fields fields' : Table Snapshot) :
    EndsAlike (mergeFields plans.graph typeName data (fun d _ => merge plans d) plan fields)
      (mergeFields plans.graph typeName data (fun d _ => merge plans d) plan fields') := by
  induction plan generalizing fields fields' with
  | nil => exact .ok fields fields'
  | cons first rest ih =>
      rw [mergeFields, mergeFields]
      split
      · exact ih fields fields'
      · rename_i incoming hget
        have hfirst :=
          mergeField_alike (fun d hle => hinner d (Nat.lt_of_le_of_lt hle (Json.sizeOf_get?_lt hget)))
          typeName first fields fields'
        exact hfirst.bind ih

theorem eq_object_of_typeName? {tree : Snapshot} {typeName : String}
    (hname : tree.typeName? = some typeName) :
    ∃ fields, tree = .object typeName fields := by
  cases tree with
  | object own fields =>
      cases hname
      exact ⟨fields, rfl⟩
  | _ => cases hname

/-- **All data is merged alike into trees of one type.** -/
theorem merges_alike (plans : Plans) (data : Json) : MergesAlike plans data := by
  induction hsize : sizeOf data using Nat.strong_induction_on generalizing data with
  | _ size ih =>
      intro tree tree' htype
      have hinner : ∀ d, sizeOf d < sizeOf data → MergesAlike plans d := fun d hlt => ih _ (hsize ▸ hlt) d rfl
      have hplain : ∀ {tree : Snapshot}, tree.typeName? = none → merge plans data tree = .ok tree := by
        intro tree hnone
        rw [merge]
        cases tree with
        | object => cases hnone
        | _ => rfl
      cases hname : tree.typeName? with
      | none =>
          rw [hplain hname, hplain (htype.symm.trans hname)]
          exact .ok _ _
      | some typeName =>
          obtain ⟨fields, rfl⟩ := eq_object_of_typeName? hname
          obtain ⟨fields', rfl⟩ := eq_object_of_typeName? (htype.symm.trans hname)
          rw [merge, mergeWith, mergeWith]
          cases plans.get? typeName with
          | none => exact .error _
          | some plan =>
              cases data with
              | object members => exact (mergeFields_alike hinner typeName plan.fields fields fields').map _ _
              | _ => exact .error _

/-- **Refused data.** For two objects of one type, each of any heap that came about by writing, data
is written into both without an error, or the same error ends the writing of both. -/
theorem patch_ends_alike {schema : Introspection.Schema} {graph : TypeGraph} {scalars : Registry}
    (hgraph : TypeGraph.build schema = .ok graph)
    (hplans : Plans.build graph scalars = .ok plans) {h h' : Heap}
    {a b : ObjectId} (hreached : Reached plans h) (hreached' : Reached plans h') (ha : h.HasObject a)
    (hb : h'.HasObject b) (htype : (h.object a).typeName = (h'.object b).typeName) (data : Json) :
    ((∃ changes, (outcome (patch plans data a) h).1 = .ok changes) ↔
        ∃ changes, (outcome (patch plans data b) h').1 = .ok changes) ∧
      ∀ e, (outcome (patch plans data a) h).1 = .error e ↔
        (outcome (patch plans data b) h').1 = .error e := by
  have hd : plans.Distinct := Plans.distinct_of_build hgraph hplans
  have hs := hreached.sound hd
  have hs' := hreached'.sound hd
  have hmerge := (writes_patch plans a data h).merges hd hs ha
  have hmerge' := (writes_patch plans b data h').merges hd hs' hb
  have htrees : (h.snapshot a).typeName? = (h'.snapshot b).typeName? := by
    rw [hs.tidy.snapshot_eq ha, hs'.tidy.snapshot_eq hb]
    exact congrArg some htype
  have halike := merges_alike plans data htrees
  rw [hmerge, hmerge'] at halike
  exact ⟨halike.of_map.ok_iff, halike.of_map.error_iff⟩

/-- Users with an entry that is none are refused by an object that is still empty, and again by one
that has the list which the first try left behind. -/
theorem refused_brokenUsers :
    Reached (samplePlans []) brokenHeap ∧ sampleHeap.HasObject ⟨0⟩ ∧ brokenHeap.HasObject ⟨0⟩ ∧
      (sampleHeap.object ⟨0⟩).typeName = (brokenHeap.object ⟨0⟩).typeName ∧
      (outcome (patch (samplePlans []) brokenUsers ⟨0⟩) sampleHeap).1 = .error (.expectedObject "User") ∧
      (outcome (patch (samplePlans []) brokenUsers ⟨0⟩) brokenHeap).1 = .error (.expectedObject "User") := by
  have hreached : Reached (samplePlans []) brokenHeap :=
    .patch brokenUsers (reached_sampleHeap _) hasObject_sampleHeap
  have he : sampleHeap.Evolves brokenHeap := (writes_patch _ _ _ _).evolves
  have hmade := he.objects hasObject_sampleHeap
  have htype := (he.typeName hasObject_sampleHeap).symm
  have herror : (outcome (patch (samplePlans []) brokenUsers ⟨0⟩) sampleHeap).1 =
      .error (.expectedObject "User") := by
    decide +kernel
  have halike := patch_ends_alike build_sampleSchema build_samplePlans (reached_sampleHeap _) hreached
    hasObject_sampleHeap hmade htype brokenUsers
  exact ⟨hreached, hasObject_sampleHeap, hmade, htype, herror, (halike.2 _).1 herror⟩

end Live

end GraphClient
