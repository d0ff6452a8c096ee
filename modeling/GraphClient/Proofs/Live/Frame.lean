import GraphClient.Proofs.Live.Evolution

/-! What a goal touches: the fields that it names, and whatever is below them in the heap before it. All
other fields of old objects stay as they are, and so do all other old lists. Paths to old objects that
the heap has later on were there before, so the bounds of one part of a goal are those of the whole. -/

namespace GraphClient.Live

namespace Heap

variable {h h₁ h₂ : Heap}

/-- That a field of an object leads to another object. -/
def Child (h : Heap) (o x : ObjectId) : Prop := ∃ field, x ∈ h.slotObjects (h.slot o field)

/-- That an object is another one, or is led to by fields. -/
def Below (h : Heap) : ObjectId → ObjectId → Prop := Relation.ReflTransGen h.Child

/-- That an object is led to by a field. -/
def BelowField (h : Heap) (o : ObjectId) (field : String) (x : ObjectId) : Prop :=
  ∃ c ∈ h.slotObjects (h.slot o field), h.Below c x

/-- That a field is one of some fields of an object or is below one of them. -/
def Within (h : Heap) (o : ObjectId) (fields : List String) (x : ObjectId) (name : String) : Prop :=
  ∃ field ∈ fields, (x = o ∧ name = field) ∨ h.BelowField o field x

theorem mem_slotObjects {s : Slot} {x : ObjectId} :
    x ∈ h.slotObjects s ↔ s = .object x ∨ ∃ l, s = .list l ∧ x ∈ (h.list l).items := by
  cases s with
  | object y => simp [slotObjects, eq_comm]
  | list l => simp [slotObjects]
  | _ => simp [slotObjects]

theorem child_iff {o x : ObjectId} : h.Child o x ↔ ∃ field, h.slot o field = .object x ∨
    ∃ l, h.slot o field = .list l ∧ x ∈ (h.list l).items := by
  simp only [Child, mem_slotObjects]

theorem hasObject_of_slotObjects {o x : ObjectId} {field : String}
    (hx : x ∈ h.slotObjects (h.slot o field)) : h.HasObject o := by
  generalize hs : h.slot o field = s at hx
  apply hasObject_of_slot hs
  intro hnull
  rw [hnull] at hx
  exact List.not_mem_nil hx

theorem hasObject_of_child {o x : ObjectId} (hchild : h.Child o x) : h.HasObject o :=
  hchild.elim fun _ hx => hasObject_of_slotObjects hx

theorem hasObject_of_below {c x : ObjectId} (hx : h.HasObject x) (hbelow : h.Below c x) : h.HasObject c := by
  cases Relation.ReflTransGen.cases_head hbelow with
  | inl heq => exact heq ▸ hx
  | inr hstep =>
      obtain ⟨b, hchild, -⟩ := hstep
      exact hasObject_of_child hchild

theorem below_of_belowField {o x : ObjectId} {field : String} (hbelow : h.BelowField o field x) :
    h.Below o x := by
  obtain ⟨c, hc, hbelow⟩ := hbelow
  exact .head ⟨field, hc⟩ hbelow

theorem within_self {o : ObjectId} {field : String} : h.Within o [field] o field :=
  ⟨field, List.mem_singleton_self field, .inl ⟨rfl, rfl⟩⟩

theorem within_of_below {o c x : ObjectId} {field : String} (hc : c ∈ h.slotObjects (h.slot o field))
    (hbelow : h.Below c x) (name : String) : h.Within o [field] x name :=
  ⟨field, List.mem_singleton_self field, .inr ⟨c, hc, hbelow⟩⟩

theorem below_of_within {o x : ObjectId} {name : String} {fields : List String}
    (hw : h.Within o fields x name) : h.Below o x := by
  obtain ⟨field, -, ⟨rfl, -⟩ | hbelow⟩ := hw
  · exact .refl
  · exact below_of_belowField hbelow

theorem Within.mono {o x : ObjectId} {name : String} {fields more : List String}
    (hw : h.Within o fields x name) (hsub : fields ⊆ more) : h.Within o more x name := by
  obtain ⟨field, hfield, hin⟩ := hw
  exact ⟨field, hsub hfield, hin⟩

/-- Only the object itself is below one that was not made. -/
theorem eq_of_below_of_not_hasObject {c x : ObjectId} (hc : ¬h.HasObject c)
    (hbelow : h.Below c x) : x = c := by
  rcases Relation.ReflTransGen.cases_head hbelow with heq | ⟨b, hchild, -⟩
  · exact heq.symm
  · exact absurd (hasObject_of_child hchild) hc

theorem Evolves.slotObjects {o x : ObjectId} {field : String} (he : h.Evolves h₁) (hx : h.HasObject x)
    (hmem : x ∈ h₁.slotObjects (h₁.slot o field)) : x ∈ h.slotObjects (h.slot o field) := by
  rw [mem_slotObjects] at hmem ⊢
  rcases hmem with hobject | ⟨l, hlist, hitem⟩
  · exact .inl (he.slotObject hx hobject)
  · have hold := he.item hx hitem
    exact .inr ⟨l, he.slotList (hasList_of_item hold) hlist, hold⟩

theorem Evolves.child {o x : ObjectId} (he : h.Evolves h₁) (hx : h.HasObject x) (hchild : h₁.Child o x) :
    h.Child o x :=
  hchild.elim fun field hmem => ⟨field, he.slotObjects hx hmem⟩

/-- A path to an old object was there before. -/
theorem Evolves.below {c x : ObjectId} (he : h.Evolves h₁) (hx : h.HasObject x) (hbelow : h₁.Below c x) :
    h.Below c x := by
  induction hbelow with
  | refl => exact .refl
  | tail _ hchild ih =>
      have hchild := he.child hx hchild
      exact .tail (ih (hasObject_of_child hchild)) hchild

theorem Evolves.belowField {o x : ObjectId} {field : String} (he : h.Evolves h₁) (hx : h.HasObject x)
    (hbelow : h₁.BelowField o field x) : h.BelowField o field x := by
  obtain ⟨c, hc, hbelow⟩ := hbelow
  have hbelow := he.below hx hbelow
  exact ⟨c, he.slotObjects (hasObject_of_below hx hbelow) hc, hbelow⟩

theorem Evolves.within {o x : ObjectId} {name : String} {fields : List String} (he : h.Evolves h₁)
    (hx : h.HasObject x) (hw : h₁.Within o fields x name) : h.Within o fields x name := by
  obtain ⟨field, hfield, hin⟩ := hw
  exact ⟨field, hfield, hin.imp_right (he.belowField hx)⟩

/-- That old objects keep all fields but some, and that an old list stays unless it is in such a field
or is one of some further lists. -/
structure Spares (h h' : Heap) (touched : ObjectId → String → Prop) (own : ListId → Prop) : Prop where
  field : ∀ {x name}, h.HasObject x → ¬touched x name → (h'.object x).get? name = (h.object x).get? name
  fields : ∀ {x}, h.HasObject x → (∀ name, ¬touched x name) → (h'.object x).fields = (h.object x).fields
  list : ∀ {k}, h.HasList k → ¬own k → (∀ x name, touched x name → h.slot x name ≠ .list k) →
    h'.list k = h.list k

namespace Spares

variable {touched touched' : ObjectId → String → Prop} {own own' : ListId → Prop}

theorem slot (hs : h.Spares h₁ touched own) {x : ObjectId} {name : String} (hx : h.HasObject x)
    (hname : ¬touched x name) : h₁.slot x name = h.slot x name := by
  rw [Heap.slot, Heap.slot, hs.field hx hname]

theorem refl (h : Heap) (touched : ObjectId → String → Prop) (own : ListId → Prop) :
    h.Spares h touched own := ⟨fun _ _ => rfl, fun _ _ => rfl, fun _ _ _ => rfl⟩

/-- A second part that touches no more of what is old. -/
theorem extend (hfirst : h.Spares h₁ touched own) (he : h.Evolves h₁) (hsecond : h₁.Spares h₂ touched' own')
    (htouched : ∀ x name, h.HasObject x → touched' x name → touched x name)
    (hown : ∀ k, h.HasList k → own' k → own k ∨ ∃ x name, touched x name ∧ h.slot x name = .list k) :
    h.Spares h₂ touched own where
  field hx hname := by
    rw [hsecond.field (he.objects hx) fun hin => hname (htouched _ _ hx hin), hfirst.field hx hname]
  fields hx hname := by
    rw [hsecond.fields (he.objects hx) fun name hin => hname name (htouched _ _ hx hin),
      hfirst.fields hx hname]
  list {k} hk hnot hslots := by
    rw [hsecond.list (he.lists hk) ?_ ?_, hfirst.list hk hnot hslots]
    · intro hin
      rcases hown k hk hin with hin | ⟨x, name, hin, hslot⟩
      · exact hnot hin
      · exact hslots x name hin hslot
    · intro x name hin hslot
      have hold := he.slotList hk hslot
      have hx : h.HasObject x := hasObject_of_slot hold nofun
      exact hslots x name (htouched x name hx hin) hold

/-- The same with nothing before it. -/
theorem widen (hs : h.Spares h₁ touched' own')
    (htouched : ∀ x name, h.HasObject x → touched' x name → touched x name)
    (hown : ∀ k, h.HasList k → own' k → own k ∨ ∃ x name, touched x name ∧ h.slot x name = .list k) :
    h.Spares h₁ touched own := (refl h touched own).extend (.refl h) hs htouched hown

theorem write {o : ObjectId} {field : String} (htouched : touched o field) (own : ListId → Prop) (s : Slot) :
    h.Spares (h.write o field s) touched own where
  field {x name} _ hname := by
    rw [get?_write, if_neg]
    rintro ⟨rfl, rfl, -⟩
    exact hname htouched
  fields {x} _ hnone := by
    rw [fields_write_of_ne]
    rintro rfl
    exact hnone field htouched
  list _ _ _ := list_write ..

theorem newObject (h : Heap) (typeName : String) (touched : ObjectId → String → Prop) (own : ListId → Prop) :
    h.Spares (h.newObject typeName).2 touched own where
  field hx _ := by rw [object_newObject_of_hasObject typeName hx]
  fields hx _ := by rw [object_newObject_of_hasObject typeName hx]
  list _ _ _ := rfl

theorem newList (h : Heap) (elementType : String) (keyed : Bool) (touched : ObjectId → String → Prop)
    (own : ListId → Prop) : h.Spares (h.newList elementType keyed).2 touched own where
  field _ _ := rfl
  fields _ _ := rfl
  list hk _ _ := list_newList_of_hasList elementType keyed hk

theorem withObject {o : ObjectId} {field : String} (htouched : touched o field) (own : ListId → Prop)
    (typeName : String) : h.Spares (h.withObject o field typeName) touched own :=
  (newObject h typeName touched own).extend (.newObject h typeName)
    (write htouched (fun _ => False) _) (fun _ _ _ => id) fun _ _ => False.elim

theorem withList {o : ObjectId} {field : String} (htouched : touched o field) (own : ListId → Prop)
    (elementType : String) (keyed : Bool) : h.Spares (h.withList o field elementType keyed) touched own :=
  (newList h elementType keyed touched own).extend (.newList h elementType keyed)
    (write htouched (fun _ => False) _) (fun _ _ _ => id) fun _ _ => False.elim

theorem setItems {l : ListId} (hown : own l) (touched : ObjectId → String → Prop) (items : List ObjectId) :
    h.Spares (h.setItems l items).2 touched own where
  field _ _ := by simp only [Instance.get?, fields_setItems]
  fields _ _ := by rw [fields_setItems]
  list {k} _ hnot _ := by
    rw [list_setItems, if_neg]
    rintro rfl
    exact hnot hown

end Spares

end Heap

/-- The fields that a goal may touch. -/
def Goal.Touches (h : Heap) : Goal → ObjectId → String → Prop
  | .object o _ _, x, _ => h.Below o x
  | .fields o _ plans _ _, x, name => h.Within o (plans.map (·.wireName)) x name
  | .field o _ plan _ _, x, name => h.Within o [plan.wireName] x name
  | .entries _ _ _ _ targets _, x, _ => ∃ c ∈ targets, h.Below c x
  | .list l _ _, x, _ => ∃ c ∈ (h.list l).items, h.Below c x

/-- The list that a goal itself is about. -/
def Goal.Owns : Goal → ListId → Prop
  | .list l _ _, k => k = l
  | .object .., _ | .fields .., _ | .field .., _ | .entries .., _ => False

theorem spares_pick (h : Heap) (list : ObjectList) (byId : List (String × ObjectId)) (position : Nat)
    (concrete : String) (data : Json) (touched : ObjectId → String → Prop) (own : ListId → Prop) :
    h.Spares (pick h list byId position concrete data).2 touched own := by
  cases hmatch : matchElement h list byId position concrete data with
  | some x =>
      rw [pick_of_match hmatch]
      exact .refl h _ _
  | none =>
      rw [pick_of_no_match hmatch]
      exact .newObject h concrete _ _

/-- An entry touches what is below its element. -/
theorem Heap.Spares.entry {h h' : Heap} {list : ObjectList} {byId : List (String × ObjectId)}
    {position : Nat} {concrete : String} {data : Json} {own : ListId → Prop}
    (hs : (pick h list byId position concrete data).2.Spares h'
      (fun x _ => (pick h list byId position concrete data).2.Below
        (pick h list byId position concrete data).1 x)
      own) :
    h.Spares h' (fun x _ => h.Below (pick h list byId position concrete data).1 x) own :=
  (spares_pick h list byId position concrete data _ _).extend
    (evolves_pick h list byId position concrete data)
    hs (fun _ _ hx htouch => (evolves_pick h list byId position concrete data).below hx htouch)
    fun _ _ => .inl

/-- **What is not touched stays.** -/
theorem Writes.spares {plans : Plans} {h h' : Heap} {g : Goal} {q : List Notification}
    (hw : Writes plans h g h' q) : h.Spares h' (g.Touches h) g.Owns := by
  induction hw with
  | halt hhalt => exact .refl _ _ _
  | object hplan hfields ih =>
      refine ih.widen (fun x name _ htouch => ?_) fun _ _ => False.elim
      exact Heap.below_of_within htouch
  | skip hget hrest ih =>
      exact ih.widen (fun x name _ htouch => htouch.mono (List.subset_cons_self _ _)) fun _ _ => False.elim
  | stop hget hfield ih =>
      exact ih.widen (fun x name _ htouch => htouch.mono (List.cons_subset_cons _ (List.nil_subset _)))
        fun _ _ => False.elim
  | next hget hfield hrest ihfield ihrest =>
      refine .extend (ihfield.widen (fun x name _ htouch => htouch.mono
        (List.cons_subset_cons _ (List.nil_subset _))) fun _ _ => False.elim) hfield.evolves ihrest
        (fun x name hx htouch => ?_) fun _ _ => False.elim
      exact (hfield.evolves.within hx htouch).mono (List.subset_cons_self _ _)
  | store hdemand => exact .write Heap.within_self _ _
  | keep hdemand hkept hinner ih =>
      refine ih.widen (fun x name _ htouch => Heap.within_of_below ?_ htouch name) fun _ _ => False.elim
      exact Heap.mem_slotObjects.2 (.inl (Heap.slot_of_kept hkept).1)
  | @replace h h' o typeName concrete field data result q hdemand hkept hinner ih =>
      have he := Heap.Evolves.withObject h o field.wireName concrete
      refine .extend (.withObject Heap.within_self _ concrete) he ih (fun x name hx htouch => ?_)
        fun _ _ => False.elim
      exact absurd (Heap.hasObject_of_below hx (he.below hx htouch)) h.not_hasObject_nextObject
  | reuse hdemand hlist hinner ih =>
      rw [Heap.list?_eq_some] at hlist
      refine ih.widen (fun x name _ htouch => ?_) fun k _ hk => .inr ⟨_, _, Heap.within_self, ?_⟩
      · obtain ⟨c, hc, hbelow⟩ := htouch
        exact Heap.within_of_below (Heap.mem_slotObjects.2 (.inr ⟨_, hlist, hc⟩)) hbelow name
      · rw [hlist, hk]
  | @attach h h' o typeName element keyed field data items result q hdemand hlist hinner ih =>
      have he := Heap.Evolves.withList h o field.wireName element keyed
      refine .extend (.withList Heap.within_self _ element keyed) he ih (fun x name hx htouch => ?_)
        fun k hk hown => ?_
      · obtain ⟨c, hc, -⟩ := htouch
        rw [Heap.list_withList_self] at hc
        exact absurd hc List.not_mem_nil
      · subst hown
        exact absurd hk h.not_hasList_nextList
  | @stopEntry h h' list position byId concrete data rest e q hconcrete hentry ih =>
      exact (Heap.Spares.entry ih).widen (fun x name _ htouch => ⟨_, List.mem_cons_self, htouch⟩)
        fun _ _ => False.elim
  | @nextEntry h h₁ h₂ list position byId concrete data rest changes targets placed q₁ q₂ hconcrete hentry
      hrest ihentry ihrest =>
      have he := evolves_pick h list byId position concrete data
      refine .extend (.widen (.entry ihentry) (fun x name _ htouch => ⟨_, List.mem_cons_self, htouch⟩)
        fun _ _ => False.elim) (he.trans hentry.evolves) ihrest (fun x name hx htouch =>
          ?_) fun _ _ => False.elim
      obtain ⟨c, hc, hbelow⟩ := htouch
      exact ⟨c, List.mem_cons_of_mem _ hc, (he.trans hentry.evolves).below hx hbelow⟩
  | @list h h' l items targets placed q hentries ih =>
      refine .extend (ih.widen (fun x name hx htouch => ?_) fun _ _ => False.elim) hentries.evolves
        (.setItems rfl _ _) (fun _ _ _ => id) fun _ _ hk => .inl hk.symm
      obtain ⟨c, hc, hbelow⟩ := htouch
      exact ⟨c, hentries.target_mem hc (Heap.hasObject_of_below hx hbelow), hbelow⟩

end GraphClient.Live
