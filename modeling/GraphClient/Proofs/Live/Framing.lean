import GraphClient.Proofs.Live.Applying
import GraphClient.Proofs.Live.Ownership
import GraphClient.Proofs.Live.Roots

/-! What a patch leaves alone. Besides the parts of the heap that the object does not lead to, these
are the fields that the data does not have, and everything in an object that the patch takes from its
place: whoever still holds such an object sees it as it was (`patch_frame`). An object that data was
for is never lost, so no data can have gone into one that was. -/

namespace GraphClient.Live

variable {plans : Plans} {h h' : Heap} {o x y : ObjectId}

namespace Heap

/-- That an object was taken from its place: another object or none is in its field, its list is gone
from the field that it was in, or it was taken out of its list. -/
inductive Drops (h h' : Heap) (x : ObjectId) : Prop
  | replaced {p : ObjectId} {field : String} (hbefore : h.slot p field = .object x)
      (hafter : h'.slot p field ≠ .object x)
  | unlisted {p : ObjectId} {field : String} {l : ListId} (hbefore : h.slot p field = .list l)
      (hitem : x ∈ (h.list l).items) (hafter : h'.slot p field ≠ .list l)
  | removed {l : ListId} (hbefore : x ∈ (h.list l).items) (hafter : x ∉ (h'.list l).items)

/-- What stays when data is written into an object. -/
structure Framed (plans : Plans) (h h' : Heap) (o : ObjectId) (data : Json) : Prop where
  /-- An object that this one does not lead to. -/
  object : ∀ {x}, h.HasObject x → ¬h.Below o x → h'.object x = h.object x
  list : ∀ {l}, h.HasList l → (∀ x name, h.Below o x → h.slot x name ≠ .list l) → h'.list l = h.list l
  /-- A field that is no member of any data for its object, with the list in it. -/
  field : ∀ {x name}, h.HasObject x → (∀ e, Applies plans h (.object o data) x e → e.get? name = none) →
    (h'.object x).get? name = (h.object x).get? name ∧ ∀ l, h.slot x name = .list l → h'.list l = h.list l
  fields : ∀ {x}, h.HasObject x → (∀ e, Applies plans h (.object o data) x e → ∀ name, e.get? name = none) →
    (h'.object x).fields = (h.object x).fields
  /-- An object that is taken from its place loses its owner, and nothing else. -/
  dropped : ∀ {x}, h.Drops h' x → h'.object x = h.object x ∨ h'.object x = { h.object x with owner := none }
  /-- What is below such an object. -/
  below : ∀ {x y}, h.Drops h' x → h.Below x y → y ≠ x → h'.object y = h.object y
  belowList : ∀ {x y name l}, h.Drops h' x → h.Below x y → h.slot y name = .list l → h'.list l = h.list l

end Heap

namespace Heap

/-- An object keeps its owner or loses it: no other list takes it over. -/
theorem Owned.owner_eq (ht : h.Tidy) (he : h.Evolves h') (ho' : h'.Owned) (hx : h.HasObject x) :
    (h'.object x).owner = (h.object x).owner ∨ (h'.object x).owner = none := by
  cases howner : (h'.object x).owner with
  | none => exact .inr rfl
  | some l => exact .inl (ht.owner (he.item hx (ho' x l howner))).symm

/-- What an object that stays refers to has the owner that it had. -/
theorem Same.owner_child {p : ObjectId} (hsame : h.Same h' x) (ht : h.Tidy) (ht' : h'.Tidy) (hown : h.Owned)
    (hown' : h'.Owned) (he : h.Evolves h') (hxp : h.Below x p) (hchild : h.Child p y) :
    (h'.object y).owner = (h.object y).owner := by
  obtain ⟨field, hslot | ⟨l, hslot, hitem⟩⟩ := child_iff.1 hchild
  · have hnone : (h.object y).owner = none :=
      Option.eq_none_iff_forall_ne_some.2 fun l howner => ht.apart hslot (hown y l howner)
    rcases hown'.owner_eq ht he (ht.object hslot).2 with howner | howner
    · exact howner
    · exact howner.trans hnone.symm
  · have hitem' : y ∈ (h'.list l).items := by rwa [hsame.list hxp hslot]
    exact (ht'.owner hitem').trans (ht.owner hitem).symm

/-- Nothing refers to an object that was dropped. -/
theorem Drops.not_child (hdrops : h.Drops h' x) (ht : h.Tidy) (he : h.Evolves h') (p : ObjectId) :
    ¬h'.Child p x := by
  have hx : h.HasObject x := by
    cases hdrops with
    | replaced hbefore => exact (ht.object hbefore).2
    | unlisted _ hitem | removed hitem => exact ht.item hitem
  intro hchild
  obtain ⟨field, hslot | ⟨l, hslot, hitem⟩⟩ := child_iff.1 hchild
  · have hold := he.slotObject hx hslot
    cases hdrops with
    | replaced hbefore hafter =>
        obtain ⟨rfl, rfl⟩ := ht.objectOnce hbefore hold
        exact hafter hslot
    | unlisted _ hmem | removed hmem => exact ht.apart hold hmem
  · have hmem := he.item hx hitem
    have hold := he.slotList (hasList_of_item hmem) hslot
    cases hdrops with
    | replaced hbefore => exact ht.apart hbefore hmem
    | unlisted hbefore hmem' hafter =>
        obtain rfl := ht.itemOnce hmem' hmem
        obtain ⟨rfl, rfl⟩ := ht.listOnce hbefore hold
        exact hafter hslot
    | removed hmem' hafter =>
        obtain rfl := ht.itemOnce hmem' hmem
        exact hafter hitem

/-- A dropped object was in a field or a list of an object that the data was for or that is below it. -/
theorem Drops.parent (hdrops : h.Drops h' x)
    (hs : h.Spares h' (fun y _ => h.Below o y) fun _ => False) : ∃ p, h.Below o p ∧ h.Child p x := by
  have hstays : ∀ {p field s}, h.slot p field = s → s ≠ .null → h'.slot p field ≠ s → h.Below o p := by
    intro p field s hbefore hs' hafter
    by_contra hnot
    exact hafter ((hs.slot (hasObject_of_slot hbefore hs') hnot).trans hbefore)
  cases hdrops with
  | @replaced p field hbefore hafter =>
      exact ⟨p, hstays hbefore nofun hafter, child_iff.2 ⟨field, .inl hbefore⟩⟩
  | @unlisted p field l hbefore hitem hafter =>
      exact ⟨p, hstays hbefore nofun hafter, child_iff.2 ⟨field, .inr ⟨l, hbefore, hitem⟩⟩⟩
  | @removed l hbefore hafter =>
      by_contra hnone
      refine hafter ?_
      rw [hs.list (hasList_of_item hbefore) id fun p name hbelow hslot => hnone ⟨p, hbelow, ?_⟩]
      · exact hbefore
      · exact child_iff.2 ⟨name, .inr ⟨l, hslot, hbefore⟩⟩

/-- A way that is left from one object to another leads over the same objects as before. -/
theorem Evolves.below_between (he : h.Evolves h') (ht : h.Tidy) (hy : h.HasObject y) (hafter : h'.Below o y)
    (hox : h.Below o x) (hxy : h.Below x y) : h'.Below o x := by
  induction hafter with
  | refl =>
      rcases Relation.ReflTransGen.cases_tail hxy with rfl | ⟨p, hxp, hchild⟩
      · exact .refl
      · exact absurd (hox.trans hxp) (ht.not_below_child hchild)
  | tail hbelow hchild ih =>
      have hold := he.child hy hchild
      rcases Relation.ReflTransGen.cases_tail hxy with rfl | ⟨p, hxp, hparent⟩
      · exact .tail hbelow hchild
      · obtain rfl := ht.parent_unique hold hparent
        exact ih (hasObject_of_child hold) hxp

end Heap

theorem Goal.not_aims {data : Json} {result : Except PatchError (List String)} {name : String}
    (hnone : ∀ e, Applies plans h (.object o data) x e → e.get? name = none) :
    ¬Goal.Aims plans h (.object o data result) x name := by
  rintro (hmentions | ⟨e, happlies, hsome⟩)
  · exact hmentions
  · rw [hnone e happlies] at hsome
    cases hsome

namespace Writes

variable {data : Json} {result : Except PatchError (List String)} {q : List Notification}

/-- **No data is for what is dropped**, nor for anything below it. -/
theorem not_applied (hw : Writes plans h (.object o data result) h' q) (hd : plans.Distinct)
    (hs : h.Sound plans)
    (ho : h.HasObject o) (hdrops : h.Drops h' x) (hxy : h.Below x y) (e : Json) :
    ¬Applies plans h (.object o data) y e := by
  intro happlies
  obtain ⟨p, hop, hchild⟩ := hdrops.parent hw.spares
  have hox : h.Below o x := hop.tail hchild
  have hy : h.HasObject y := hs.tidy.hasObject_of_below (hs.tidy.hasObject_of_child hchild) hxy
  have hafter : h'.Below o y := hw.retains hd hs ho hy happlies
  -- the data is for an object that is left, so the dropped one is on the way to it
  rcases Relation.ReflTransGen.cases_tail (hw.evolves.below_between hs.tidy hy hafter hox hxy) with
    rfl | ⟨z, -, hz⟩
  · exact hs.tidy.not_below_child hchild hop
  · exact hdrops.not_child hs.tidy hw.evolves z hz

/-- What is below a dropped object has the fields and the lists that it had. -/
theorem same_of_drops (hw : Writes plans h (.object o data result) h' q) (hd : plans.Distinct)
    (hs : h.Sound plans) (ho : h.HasObject o) (hdrops : h.Drops h' x) : h.Same h' x := by
  obtain ⟨p, -, hchild⟩ := hdrops.parent hw.spares
  refine hw.spares_applied.same hs.tidy hw.evolves (hs.tidy.hasObject_of_child hchild) ?_ fun _ => False.elim
  rintro y name hxy (hmentions | ⟨e, happlies, -⟩)
  · exact hmentions
  · exact hw.not_applied hd hs ho hdrops hxy e happlies

/-- **Writing data into an object changes no more than what the data is for.** -/
theorem framed (hw : Writes plans h (.object o data result) h' q) (hd : plans.Distinct) (hs : h.Sound plans)
    (hs' : h'.Sound plans) (hown : h.Owned) (hown' : h'.Owned) (ho : h.HasObject o) :
    h.Framed plans h' o data where
  object hx hnot := Instance.eq_of_parts (hw.evolves.typeName hx) (hw.spares.fields hx fun _ => hnot)
    (hw.keepsOwners _ hx fun _ => hnot)
  list hl hslots := hw.spares.list hl id hslots
  field hx hnone :=
    ⟨hw.spares_applied.field hx (Goal.not_aims hnone),
      fun _ hslot => hw.spares_applied.list_of_slot hs.tidy hslot (Goal.not_aims hnone) id⟩
  fields hx hnone := hw.spares_applied.fields hx fun name => Goal.not_aims fun e happlies =>
    hnone e happlies name
  dropped {x} hdrops := by
    obtain ⟨p, -, hchild⟩ := hdrops.parent hw.spares
    have hx := hs.tidy.hasObject_of_child hchild
    have hsame := hw.same_of_drops hd hs ho hdrops
    have htype := hsame.typeName .refl
    have hfields := hsame.fields .refl
    rcases hown'.owner_eq hs.tidy hw.evolves hx with howner | howner
    · exact .inl (Instance.eq_of_parts htype hfields howner)
    · exact .inr (Instance.eq_of_parts htype hfields howner)
  below {x y} hdrops hxy hne := by
    have hsame := hw.same_of_drops hd hs ho hdrops
    refine Instance.eq_of_parts (hsame.typeName hxy) (hsame.fields hxy) ?_
    rcases Relation.ReflTransGen.cases_tail hxy with heq | ⟨p, hxp, hchild⟩
    · exact absurd heq hne
    · exact hsame.owner_child hs.tidy hs'.tidy hown hown' hw.evolves hxp hchild
  belowList hdrops hxy hslot := (hw.same_of_drops hd hs ho hdrops).list hxy hslot

end Writes

/-- **The frame of a patch**, whether it succeeds or not. -/
theorem patch_frame {schema : Introspection.Schema} {graph : TypeGraph} {scalars : Registry}
    (hgraph : TypeGraph.build schema = .ok graph) (hplans : Plans.build graph scalars = .ok plans)
    (hreached : Reached plans h) (ho : h.HasObject o) (data : Json) :
    h.Framed plans (outcome (patch plans data o) h).2.1 o data := by
  have hd : plans.Distinct := Plans.distinct_of_build hgraph hplans
  have hreached' : Reached plans (outcome (patch plans data o) h).2.1 := .patch data hreached ho
  have hwrites := writes_patch plans o data h
  exact hwrites.framed hd (hreached.sound hd) (hreached'.sound hd) hreached.owned hreached'.owned ho

section Sample

/-- The first of two users is dropped, and has the id that it had. -/
theorem patch_frame_sampleGrove :
    Reached (samplePlans []) sampleGrove.heap ∧ sampleGrove.heap.HasObject ⟨0⟩ ∧
      sampleGrove.heap.Framed (samplePlans []) prunedGrove.heap ⟨0⟩ (usersNamed ["b"]) ∧
      sampleGrove.heap.Drops prunedGrove.heap ⟨1⟩ ∧ (prunedGrove.heap.object ⟨1⟩).id? = some "a" := by
  have hreached : Reached (samplePlans []) sampleGrove.heap :=
    .patch _ (reached_sampleHeap _) hasObject_sampleHeap
  have hmade : sampleGrove.heap.HasObject ⟨0⟩ := (writes_patch _ _ _ _).evolves.objects hasObject_sampleHeap
  have hframed : sampleGrove.heap.Framed (samplePlans []) prunedGrove.heap ⟨0⟩ (usersNamed ["b"]) :=
    patch_frame build_sampleSchema build_samplePlans hreached hmade (usersNamed ["b"])
  have hitems : (sampleGrove.heap.list ⟨0⟩).items = [⟨1⟩, ⟨2⟩] := by decide +kernel
  have hleft : (prunedGrove.heap.list ⟨0⟩).items = [⟨2⟩] := by decide +kernel
  have hid : (sampleGrove.heap.object ⟨1⟩).id? = some "a" := by decide +kernel
  have hdrops : sampleGrove.heap.Drops prunedGrove.heap ⟨1⟩ := by
    refine .removed (l := ⟨0⟩) ?_ ?_
    · rw [hitems]
      exact List.mem_cons_self
    · rw [hleft]
      decide
  refine ⟨hreached, hmade, hframed, hdrops, ?_⟩
  rcases hframed.dropped hdrops with hsame | hsame
  · rw [hsame, hid]
  · rw [hsame]
    exact hid

end Sample

end GraphClient.Live
