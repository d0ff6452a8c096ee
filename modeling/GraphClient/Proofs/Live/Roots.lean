import GraphClient.Proofs.Live.Apart

/-! Several trees in one heap. Writing an object leaves all of another tree as it is, down to the owners of
its objects: a list takes over only objects that it had before and objects that were not there before. -/

namespace GraphClient.Live

namespace Heap

variable {h h₁ h₂ : Heap} {c x : ObjectId}

/-- That an object and all that it leads to are not touched at all. -/
structure Frozen (h h' : Heap) (c : ObjectId) : Prop where
  object : ∀ {x}, h.Below c x → h'.object x = h.object x
  list : ∀ {x name l}, h.Below c x → h.slot x name = .list l → h'.list l = h.list l

namespace Frozen

theorem refl (h : Heap) (c : ObjectId) : h.Frozen h c := ⟨fun _ => rfl, fun _ _ => rfl⟩

theorem same (hf : h.Frozen h₁ c) : h.Same h₁ c :=
  ⟨fun hbelow => by rw [hf.object hbelow], fun hbelow => by rw [hf.object hbelow], hf.list⟩

theorem trans (hfirst : h.Frozen h₁ c) (hsecond : h₁.Frozen h₂ c) : h.Frozen h₂ c where
  object hbelow := (hsecond.object (hfirst.same.below.2 hbelow)).trans (hfirst.object hbelow)
  list hbelow hslot := by
    have hslot₁ := (hfirst.same.slot hbelow _).trans hslot
    exact (hsecond.list (hfirst.same.below.2 hbelow) hslot₁).trans (hfirst.list hbelow hslot)

/-- What is new is not in an old tree. -/
theorem newObject (ht : h.Tidy) (hc : h.HasObject c) (typeName : String) :
    h.Frozen (h.newObject typeName).2 c :=
  ⟨fun hbelow => object_newObject_of_hasObject typeName (ht.hasObject_of_below hc hbelow), fun _ _ => rfl⟩

end Frozen

/-- That old objects keep their owner unless all of their fields may be touched. -/
def KeepsOwners (h h' : Heap) (touched : ObjectId → String → Prop) : Prop :=
  ∀ x, h.HasObject x → (∀ name, ¬touched x name) → (h'.object x).owner = (h.object x).owner

namespace KeepsOwners

variable {touched touched' : ObjectId → String → Prop}

theorem refl (h : Heap) (touched : ObjectId → String → Prop) : h.KeepsOwners h touched := fun _ _ _ => rfl

theorem extend (hfirst : h.KeepsOwners h₁ touched) (he : h.Evolves h₁) (hsecond : h₁.KeepsOwners h₂ touched')
    (htouched : ∀ x name, h.HasObject x → touched' x name → touched x name) : h.KeepsOwners h₂ touched :=
  fun x hx hnone => (hsecond x (he.objects hx) fun name hin => hnone name (htouched x name hx hin)).trans
    (hfirst x hx hnone)

theorem widen (hs : h.KeepsOwners h₁ touched')
    (htouched : ∀ x name, h.HasObject x → touched' x name → touched x name) : h.KeepsOwners h₁ touched :=
  (refl h touched).extend (.refl h) hs htouched

theorem withObject (h : Heap) (o : ObjectId) (field typeName : String) (touched : ObjectId → String → Prop) :
    h.KeepsOwners (h.withObject o field typeName) touched :=
  fun _ hx _ => by rw [Heap.withObject, owner_write, object_newObject_of_hasObject typeName hx]

theorem withList (h : Heap) (o : ObjectId) (field elementType : String) (keyed : Bool)
    (touched : ObjectId → String → Prop) : h.KeepsOwners (h.withList o field elementType keyed) touched :=
  fun _ _ _ => by rw [Heap.withList, owner_write, object_newList]

end KeepsOwners

end Heap

theorem keepsOwners_pick (h : Heap) (list : ObjectList) (byId : List (String × ObjectId)) (position : Nat)
    (concrete : String) (data : Json) (touched : ObjectId → String → Prop) :
    h.KeepsOwners (pick h list byId position concrete data).2 touched :=
  fun _ hx _ => by rw [object_pick hx]

/-- **Owners stay where nothing is touched.** -/
theorem Writes.keepsOwners {plans : Plans} {h h' : Heap} {g : Goal} {q : List Notification}
    (hw : Writes plans h g h' q) : h.KeepsOwners h' (g.Touches h) := by
  induction hw with
  | halt hhalt => exact .refl _ _
  | object hplan hfields ih => exact ih.widen fun x name _ htouch => Heap.below_of_within htouch
  | skip hget hrest ih => exact ih.widen fun x name _ htouch => htouch.mono (List.subset_cons_self _ _)
  | stop hget hfield ih =>
      exact ih.widen fun x name _ htouch => htouch.mono (List.cons_subset_cons _ (List.nil_subset _))
  | next hget hfield hrest ihfield ihrest =>
      refine .extend (ihfield.widen fun x name _ htouch => htouch.mono
        (List.cons_subset_cons _ (List.nil_subset _))) hfield.evolves ihrest fun x name hx htouch => ?_
      exact (hfield.evolves.within hx htouch).mono (List.subset_cons_self _ _)
  | store hdemand => exact fun _ _ _ => Heap.owner_write ..
  | keep hdemand hkept hinner ih =>
      refine ih.widen fun x name _ htouch => Heap.within_of_below ?_ htouch name
      exact Heap.mem_slotObjects.2 (.inl (Heap.slot_of_kept hkept).1)
  | @replace h h' o typeName concrete field data result q hdemand hkept hinner ih =>
      have he := Heap.Evolves.withObject h o field.wireName concrete
      refine .extend (.withObject h o _ concrete _) he ih fun x name hx htouch => ?_
      exact absurd (Heap.hasObject_of_below hx (he.below hx htouch)) h.not_hasObject_nextObject
  | reuse hdemand hlist hinner ih =>
      rw [Heap.list?_eq_some] at hlist
      refine ih.widen fun x name _ htouch => ?_
      obtain ⟨c, hc, hbelow⟩ := htouch
      exact Heap.within_of_below (Heap.mem_slotObjects.2 (.inr ⟨_, hlist, hc⟩)) hbelow name
  | @attach h h' o typeName element keyed field data items result q hdemand hlist hinner ih =>
      have he := Heap.Evolves.withList h o field.wireName element keyed
      refine .extend (.withList h o _ element keyed _) he ih fun x name hx htouch => ?_
      obtain ⟨c, hc, -⟩ := htouch
      rw [Heap.list_withList_self] at hc
      exact absurd hc List.not_mem_nil
  | @stopEntry h h' list position byId concrete data rest e q hconcrete hentry ih =>
      have he := evolves_pick h list byId position concrete data
      refine .extend (keepsOwners_pick h list byId position concrete data _) he ih fun x name hx htouch => ?_
      exact ⟨_, List.mem_cons_self, he.below hx htouch⟩
  | @nextEntry h h₁ h₂ list position byId concrete data rest changes targets placed q₁ q₂ hconcrete hentry
      hrest ihentry ihrest =>
      have he := evolves_pick h list byId position concrete data
      refine .extend (.extend (keepsOwners_pick h list byId position concrete data _) he ihentry
        fun x name hx htouch => ⟨_, List.mem_cons_self, he.below hx htouch⟩) (he.trans hentry.evolves) ihrest
        fun x name hx htouch => ?_
      obtain ⟨c, hc, hbelow⟩ := htouch
      exact ⟨c, List.mem_cons_of_mem _ hc, (he.trans hentry.evolves).below hx hbelow⟩
  | @list h h' l items targets placed q hentries ih =>
      intro x hx hnone
      have hitem : x ∉ (h.list l).items := fun hin => hnone "" ⟨x, hin, .refl⟩
      have hout : x ∉ placed.contents (h.list l).items := by
        intro hin
        rcases mem_contents hin with hplaced | hold
        · exact hitem (hentries.target_mem (hentries.evolves_picks.2.2.subset hplaced) hx)
        · exact hitem hold
      have hkept : x ∉ (h'.list l).items := fun hin => hitem (hentries.evolves.item hx hin)
      rw [Heap.object_setItems, if_neg hout, if_neg fun hgone => hkept hgone.1]
      refine ih x hx fun name htouch => ?_
      obtain ⟨c, hc, hbelow⟩ := htouch
      exact hnone name ⟨c, hentries.target_mem hc (Heap.hasObject_of_below hx hbelow), hbelow⟩

namespace Heap

variable {h : Heap} {c o : ObjectId}

/-- What is below one of two objects that nothing refers to is not below the other. -/
theorem Tidy.not_below_loose (ht : h.Tidy) (hc : h.Loose c) (ho : h.Loose o) (hne : c ≠ o) {x : ObjectId}
    (hcx : h.Below c x) : ¬h.Below o x := by
  have hroot : ∀ {a b : ObjectId}, h.Loose b → h.Below a b → a = b := by
    intro a b hb hbelow
    rcases Relation.ReflTransGen.cases_tail hbelow with heq | ⟨p, -, hchild⟩
    · exact heq.symm
    · obtain ⟨field, hs | ⟨l, -, hitem⟩⟩ := child_iff.1 hchild
      · exact absurd hs (hb.slot p field)
      · exact absurd hitem (hb.item l)
  intro hox
  rcases ht.comparable hcx hox with hbelow | hbelow
  · exact hne (hroot ho hbelow)
  · exact hne (hroot hc hbelow).symm

end Heap

theorem Instance.eq_of_parts {i j : Instance} (htype : i.typeName = j.typeName)
    (hfields : i.fields = j.fields) (howner : i.owner = j.owner) : i = j := by
  cases i
  cases j
  rw [Instance.mk.injEq]
  exact ⟨htype, hfields, howner⟩

/-- **Writing one tree leaves another one as it is.** -/
theorem Writes.frozen {plans : Plans} {h h' : Heap} {o c : ObjectId} {data : Json}
    {result : Except PatchError (List String)} {q : List Notification}
    (hw : Writes plans h (.object o data result) h' q) (ht : h.Tidy) (hc : h.HasObject c) (hcl : h.Loose c)
    (ho : h.Loose o) (hne : c ≠ o) : h.Frozen h' c := by
  have hapart : ∀ {x}, h.Below c x → ∀ name, ¬Goal.Touches h (.object o data result) x name :=
    fun hbelow _ htouch => ht.not_below_loose hcl ho hne hbelow htouch
  have hsame := hw.spares.same ht hw.evolves hc (fun x name hbelow => hapart hbelow name) fun _ => False.elim
  refine ⟨fun {x} hbelow => ?_, hsame.list⟩
  have howner := hw.keepsOwners x (ht.hasObject_of_below hc hbelow) (hapart hbelow)
  exact Instance.eq_of_parts (hsame.typeName hbelow) (hsame.fields hbelow) howner

end GraphClient.Live
