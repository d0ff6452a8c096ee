import GraphClient.Proofs.Live.Apart
import GraphClient.Proofs.Live.Plans
import GraphClient.Live.Client

/-! Changes that are told. The changes noted by a call are exactly the difference between the heaps before
and after it: a field is in them once if its slot differs and otherwise not at all, and a list once with
changes that lead from its old contents to the new ones. As no part of a goal touches what another part
does, the changes of the parts are those of the whole. -/

namespace GraphClient.Live

/-- The field of an object that a change is about. -/
def Notification.fieldOf? (o : ObjectId) : Notification → Option String
  | field x name => if x = o then some name else none
  | list _ _ => none

/-- The changes of a list. -/
def Notification.changesOf? (l : ListId) : Notification → Option (List (ListChange ObjectId))
  | field _ _ => none
  | list k changes => if k = l then some changes else none

/-- The changed fields of an object, in their order. -/
def ownFields (o : ObjectId) (q : List Notification) : List String := q.filterMap (·.fieldOf? o)

/-- What is told about a list. -/
def ownChanges (l : ListId) (q : List Notification) : List (List (ListChange ObjectId)) :=
  q.filterMap (·.changesOf? l)

/-- That changes are the difference of two heaps. -/
structure Heap.Tells (h h' : Heap) (q : List Notification) : Prop where
  field : ∀ o name, q.count (.field o name) = if h.slot o name = h'.slot o name then 0 else 1
  list : ∀ l, ((h'.list l).items = (h.list l).items ∧ ownChanges l q = []) ∨
    ((h'.list l).items ≠ (h.list l).items ∧ ∃ changes, ownChanges l q = [changes] ∧
      ListChange.replay? (h.list l).items changes = some (h'.list l).items)

namespace Heap.Tells

variable {h h₁ h₂ : Heap} {q₁ q₂ : List Notification}

/-- Heaps with the same slots and contents. -/
theorem of_same (hslot : ∀ o name, h₁.slot o name = h.slot o name)
    (hitems : ∀ l, (h₁.list l).items = (h.list l).items) : h.Tells h₁ [] where
  field o name := by rw [hslot, if_pos rfl, List.count_nil]
  list l := .inl ⟨hitems l, rfl⟩

theorem refl (h : Heap) : h.Tells h [] := of_same (fun _ _ => rfl) fun _ => rfl

/-- Two steps of which none undoes what the other does. -/
theorem append (hfirst : h.Tells h₁ q₁) (hsecond : h₁.Tells h₂ q₂)
    (hslot : ∀ o name, h₁.slot o name = h.slot o name ∨ h₂.slot o name = h₁.slot o name)
    (hitems : ∀ l, (h₁.list l).items = (h.list l).items ∨ (h₂.list l).items = (h₁.list l).items) :
    h.Tells h₂ (q₁ ++ q₂) where
  field o name := by
    rw [List.count_append, hfirst.field, hsecond.field]
    rcases hslot o name with heq | heq
    · rw [heq, if_pos rfl, Nat.zero_add]
    · rw [heq, if_pos rfl, Nat.add_zero]
  list l := by
    rw [ownChanges, List.filterMap_append]
    rcases hfirst.list l with ⟨hsame, hnone⟩ | ⟨hdiffers, changes, hone, hreplay⟩
    · rw [ownChanges] at hnone
      rw [hnone, List.nil_append, ← hsame]
      exact hsecond.list l
    · have hsame := (hitems l).resolve_left hdiffers
      rcases hsecond.list l with ⟨-, hnone⟩ | ⟨hne, -⟩
      · rw [ownChanges] at hone hnone
        rw [hone, hnone, hsame]
        exact .inr ⟨hdiffers, changes, rfl, hreplay⟩
      · exact absurd hsame hne

theorem write (h : Heap) (o : ObjectId) (field : String) (s : Slot) :
    h.Tells (h.write o field s) (noted h o field s) where
  field x name := by
    rw [slot_write, noted, differs_eq_decide]
    by_cases hs : h.slot o field = s
    · rw [if_neg (by simp [hs]), List.count_nil]
      split
      · rename_i heq
        rw [heq.1, heq.2, if_pos hs]
      · rw [if_pos rfl]
    · rw [if_pos (by simp [hs])]
      by_cases heq : x = o ∧ name = field
      · obtain ⟨rfl, rfl⟩ := heq
        simp [hs]
      · rw [if_neg heq, if_pos rfl, List.count_eq_zero, List.mem_singleton]
        rintro ⟨⟩
        exact heq ⟨rfl, rfl⟩
  list l := by
    rw [list_write]
    refine .inl ⟨rfl, ?_⟩
    unfold noted
    split <;> rfl

theorem withObject (h : Heap) (o : ObjectId) (field typeName : String) :
    h.Tells (h.withObject o field typeName) (noted h o field (.object h.nextObject)) := by
  have hnew : h.Tells (h.newObject typeName).2 [] := of_same (slot_newObject h typeName) fun _ => rfl
  have hwrite := write (h.newObject typeName).2 o field (.object h.nextObject)
  rw [noted, differs_newObject] at hwrite
  exact hnew.append hwrite (fun x name => .inl (slot_newObject h typeName x name)) fun _ => .inl rfl

theorem withList (h : Heap) (o : ObjectId) (field elementType : String) (keyed : Bool) :
    h.Tells (h.withList o field elementType keyed) (noted h o field (.list h.nextList)) := by
  have hnew : h.Tells (h.newList elementType keyed).2 [] :=
    of_same (fun _ _ => rfl) (items_newList h elementType keyed)
  exact hnew.append (write (h.newList elementType keyed).2 o field (.list h.nextList)) (fun _ _ => .inl rfl)
    fun l => .inl (items_newList h elementType keyed l)

/-- New contents of a list are told by its reordering, and the same contents are not told. -/
theorem setItems (l : ListId) (items : List ObjectId) (hnodup : (h.list l).items.Nodup) :
    h.Tells (h.setItems l items).2 (notedOrder l (h.setItems l items).1) where
  field o name := by
    rw [slot_setItems, if_pos rfl, notedOrder]
    split
    · rfl
    · rw [List.count_eq_zero, List.mem_singleton]
      intro h
      cases h
  list k := by
    have hreplay : ListChange.replay? (h.list l).items (h.setItems l items).1.changes = some items :=
      (reorder_replays _ _).1
    rw [list_setItems, notedOrder]
    by_cases hk : k = l
    · subst hk
      rw [if_pos rfl]
      cases hchanges : (h.setItems k items).1.changes with
      | nil =>
          rw [hchanges, ListChange.replay?_nil, Option.some.injEq] at hreplay
          exact .inl ⟨hreplay.symm, rfl⟩
      | cons change rest =>
          refine .inr ⟨fun heq => ?_, change :: rest, ?_, ?_⟩
          · have hself : (h.setItems k items).1 = ⟨[], [], [], []⟩ := by
              change reorder (h.list k).items items = _
              rw [show items = (h.list k).items from heq, reorder_self hnodup]
            rw [hself] at hchanges
            cases hchanges
          · simp [ownChanges, Notification.changesOf?]
          · rw [← hchanges]
            exact hreplay
    · rw [if_neg hk]
      refine .inl ⟨rfl, ?_⟩
      split
      · rfl
      · simp [ownChanges, Notification.changesOf?, Ne.symm hk]

/-- An object whose slots stay is not told about. -/
theorem ownFields_eq_nil (ht : h.Tells h₁ q₁) {o : ObjectId}
    (hslot : ∀ name, h₁.slot o name = h.slot o name) :
    ownFields o q₁ = [] := by
  rw [ownFields, List.filterMap_eq_nil_iff]
  intro n hn
  cases n with
  | list l changes => rfl
  | field x name =>
      rw [Notification.fieldOf?, if_neg]
      rintro rfl
      have hcount := ht.field x name
      rw [if_pos (hslot name).symm, List.count_eq_zero] at hcount
      exact hcount hn

end Heap.Tells

/-- What a result tells about the changed fields of the object that is written. -/
def Goal.Reports (q : List Notification) : Goal → Prop
  | .object o _ result | .fields o _ _ _ result => ∀ changes, result = .ok changes → ownFields o q = changes
  | .field o _ plan _ result => ∀ changed, result = .ok changed →
      ownFields o q = if changed then [plan.wireName] else []
  | .entries .. | .list .. => True

theorem ownFields_noted (h : Heap) (o : ObjectId) (field : String) (s : Slot) :
    ownFields o (noted h o field s) = if h.differs o field s then [field] else [] := by
  unfold noted
  split
  · simp [ownFields, Notification.fieldOf?]
  · rfl

theorem ownFields_append (o : ObjectId) (q₁ q₂ : List Notification) :
    ownFields o (q₁ ++ q₂) = ownFields o q₁ ++ ownFields o q₂ := List.filterMap_append

/-- A list whose items change is made or stands in a field that is touched. -/
theorem items_apart {h h₁ h₂ : Heap} {touched touched' : ObjectId → String → Prop} (ht : h.Tidy)
    (hfirst : h.Spares h₁ touched fun _ => False) (hsecond : h₁.Spares h₂ touched' fun _ => False)
    (he : h.Evolves h₁)
    (hapart : ∀ x name, h₁.HasObject x → touched' x name → h.HasObject x ∧ ¬touched x name) (l : ListId) :
    (h₁.list l).items = (h.list l).items ∨ (h₂.list l).items = (h₁.list l).items := by
  by_cases hin : ∃ x name, touched' x name ∧ h₁.slot x name = .list l
  · obtain ⟨x, name, htouch, hslot⟩ := hin
    obtain ⟨hx, hnot⟩ := hapart x name (Heap.hasObject_of_slot hslot nofun) htouch
    rw [hfirst.slot hx hnot] at hslot
    exact .inl (by rw [hfirst.list_of_slot ht hslot hnot id])
  · by_cases hl : h₁.HasList l
    · exact .inr (by rw [hsecond.list hl id fun x name htouch hslot => hin ⟨x, name, htouch, hslot⟩])
    · rw [Heap.items_of_not_hasList hl, Heap.items_of_not_hasList fun hold => hl (he.lists hold)]
      exact .inl rfl

theorem slot_apart {h h₁ h₂ : Heap} {touched touched' : ObjectId → String → Prop}
    (hfirst : h.Spares h₁ touched fun _ => False) (hsecond : h₁.Spares h₂ touched' fun _ => False)
    (he : h.Evolves h₁)
    (hapart : ∀ x name, h₁.HasObject x → touched' x name → h.HasObject x ∧ ¬touched x name) (x : ObjectId)
    (name : String) : h₁.slot x name = h.slot x name ∨ h₂.slot x name = h₁.slot x name := by
  by_cases hx : h₁.HasObject x
  · by_cases htouch : touched' x name
    · obtain ⟨hold, hnot⟩ := hapart x name hx htouch
      exact .inl (hfirst.slot hold hnot)
    · exact .inr (hsecond.slot hx htouch)
  · rw [Heap.slot_of_not_hasObject hx, Heap.slot_of_not_hasObject fun hold => hx (he.objects hold)]
    exact .inl rfl

theorem tells_pick {h h' : Heap} {list : ObjectList} {position : Nat} {byId : List (String × ObjectId)}
    {concrete : String} {data : Json} {q : List Notification}
    (ht : (pick h list byId position concrete data).2.Tells h' q) : h.Tells h' q := by
  cases hmatch : matchElement h list byId position concrete data with
  | some x => rwa [pick_of_match hmatch] at ht
  | none =>
      rw [pick_of_no_match hmatch] at ht
      exact (Heap.Tells.of_same (Heap.slot_newObject h concrete) fun _ => rfl).append ht
        (fun x name => .inl (Heap.slot_newObject h concrete x name)) fun _ => .inl rfl

/-- A field is noted once when something new in it is written, as its object is not touched any more. -/
theorem Heap.Tells.inside {h h₁ h₂ : Heap} {o : ObjectId} {field : String} {s : Slot}
    {q : List Notification} (hfirst : h.Tells h₁ (noted h o field s)) (hsecond : h₁.Tells h₂ q)
    (hslot : ∀ x name, h₁.slot x name = if x = o ∧ name = field then s else h.slot x name)
    (hitems : ∀ l, (h₁.list l).items = (h.list l).items)
    (hsame : ∀ name, h₂.slot o name = h₁.slot o name) :
    h.Tells h₂ (noted h o field s ++ q) ∧
      ownFields o (noted h o field s ++ q) = if h.differs o field s then [field] else [] := by
  refine ⟨hfirst.append hsecond (fun x name => ?_) fun l => .inl (hitems l), ?_⟩
  · by_cases heq : x = o ∧ name = field
    · obtain ⟨rfl, rfl⟩ := heq
      exact .inr (hsame name)
    · rw [hslot, if_neg heq]
      exact .inl rfl
  · rw [ownFields_append, hsecond.ownFields_eq_nil hsame, List.append_nil, ownFields_noted]

theorem Goal.Halts.reports {plans : Plans} {h : Heap} {g : Goal} (hhalt : g.Halts plans h) :
    g.Reports [] := by
  cases hhalt with
  | noField => exact fun changes hok => by cases hok; rfl
  | refused hdemand => exact fun changed hok => nomatch hok
  | unknownType hplan => exact fun changes hok => nomatch hok
  | expectedObject hplan hdata => exact fun changes hok => nomatch hok
  | _ => trivial

/-- The new contents of a list are told about behind its entries. -/
theorem Writes.tells_list {plans : Plans} (hd : plans.Distinct) {h h' : Heap} {l : ListId} {items : List Json}
    {targets : List ObjectId} {placed : Placed} {q : List Notification}
    (hentries : Writes plans h (.entries (h.list l) 0 (elementIds h (h.list l)) items targets placed) h' q)
    (hs : h.Sound plans) (hl : h.HasList l) (htells : h.Tells h' q) :
    h.Tells (h'.setItems l (placed.contents (h.list l).items)).2
      (q ++ notedOrder l (h'.setItems l (placed.contents (h.list l).items)).1) := by
  have hs' := (hentries.sound_meets hd hs ⟨l, .of_list hl⟩).1
  refine htells.append (.setItems l _ hs'.tidy.nodup) (fun x name => .inr ?_) fun k => ?_
  · rw [Heap.slot_setItems]
  · by_cases hk : k = l
    · subst hk
      exact .inl (by rw [hentries.list_of_entries hs.tidy hl])
    · rw [Heap.list_setItems, if_neg hk]
      exact .inr rfl

/-- **What is told is the difference.** -/
theorem Writes.tells_reports {plans : Plans} (hd : plans.Distinct) {h h' : Heap} {g : Goal}
    {q : List Notification} (hw : Writes plans h g h' q) (hs : h.Sound plans) (hst : g.Stands plans h) :
    h.Tells h' q ∧ g.Reports q := by
  induction hw with
  | halt hhalt => exact ⟨.refl _, hhalt.reports⟩
  | object hplan hfields ih => exact ih hs (.of_plan hst hplan)
  | skip hget hrest ih => exact ih hs hst.rest
  | stop hget hfield ih => exact ⟨(ih hs hst.first).1, fun changes hok => nomatch hok⟩
  | @next h h₁ h₂ o typeName field rest data d changed result q₁ q₂ hget hfield hrest ihfield ihrest =>
      obtain ⟨hs₁, hst₁⟩ := hst.next hd hs hfield
      obtain ⟨htells, hreports⟩ := ihfield hs hst.first
      obtain ⟨htells₁, hreports₁⟩ := ihrest hs₁ hst₁
      -- no slot is written by two of the fields, so none is noted twice
      have hapart : ∀ x name, h₁.HasObject x → Goal.Touches h₁ (.fields o typeName rest data result) x name →
          h.HasObject x ∧ ¬Goal.Touches h (.field o typeName field d (.ok changed)) x name :=
        fun x name _ htouch => hfield.apart_next hd hs.tidy hst htouch
      refine ⟨htells.append htells₁ (slot_apart hfield.spares hrest.spares hfield.evolves hapart)
        (items_apart hs.tidy hfield.spares hrest.spares hfield.evolves hapart), fun changes hok => ?_⟩
      cases result with
      | error e => cases hok
      | ok later =>
          cases hok
          rw [ownFields_append, hreports changed rfl, hreports₁ later rfl, consChanged]
          cases changed <;> rfl
  | @store h o typeName field data slot hdemand =>
      refine ⟨.write h o field.wireName slot, fun changed hok => ?_⟩
      cases hok
      exact ownFields_noted h o field.wireName slot
  | @keep h h' o x typeName concrete field data result q hdemand hkept hinner ih =>
      have hslot := (Heap.slot_of_kept hkept).1
      obtain ⟨htells, -⟩ := ih hs (hs.tidy.object hslot).2
      refine ⟨htells, fun changed hok => ?_⟩
      cases result with
      | error e => cases hok
      | ok changes =>
          cases hok
          exact htells.ownFields_eq_nil fun name =>
            hinner.spares.slot hst.object (hs.tidy.not_below_object hslot)
  | @replace h h' o typeName concrete field data result q hdemand hkept hinner ih =>
      have hs₁ := hs.withObject hst hdemand
      have hmade := Heap.made_withObject hst.object field.wireName concrete
      have hslot := h.slot_withObject_self o field.wireName concrete
      obtain ⟨htells, hown⟩ := (Heap.Tells.withObject h o field.wireName concrete).inside (ih hs₁ hmade).1
        (fun x name => Heap.slot_withObject h o x field.wireName concrete name)
        (fun l => by rw [Heap.list_withObject]) fun name => hinner.spares.slot
          ((Heap.hasObject_withObject hst.object _ _).2 (.inl hst.object)) (hs₁.tidy.not_below_object hslot)
      refine ⟨htells, fun changed hok => ?_⟩
      obtain ⟨changes, -, rfl⟩ := Except.map_eq_ok.1 hok
      exact hown
  | @reuse h h' o l typeName element keyed field data items result q hdemand hlist hinner ih =>
      rw [Heap.list?_eq_some] at hlist
      obtain ⟨htells, -⟩ := ih hs (hs.tidy.list hlist)
      refine ⟨htells, fun changed hok => ?_⟩
      obtain ⟨changes, -, rfl⟩ := Except.map_eq_ok.1 hok
      exact htells.ownFields_eq_nil fun name =>
        hinner.spares.slot hst.object (hs.tidy.not_below_items hlist)
  | @attach h h' o typeName element keyed field data items result q hdemand hlist hinner ih =>
      have hs₁ := hs.withList hst hdemand
      have hmade := h.made_withList o field.wireName element keyed
      have hslot := h.slot_withList_self o field.wireName element keyed
      obtain ⟨htells, hown⟩ := (Heap.Tells.withList h o field.wireName element keyed).inside (ih hs₁ hmade).1
        (fun x name => Heap.slot_withList h o x field.wireName element name keyed)
        (fun l => Heap.items_withList h o field.wireName element keyed l) fun name => hinner.spares.slot
          ((Heap.hasObject_withList hst.object _ _ _).2 hst.object) (hs₁.tidy.not_below_items hslot)
      refine ⟨htells, fun changed hok => ?_⟩
      obtain ⟨changes, -, rfl⟩ := Except.map_eq_ok.1 hok
      exact hown
  | @stopEntry h h' list position byId concrete data rest e q hconcrete hentry ih =>
      obtain ⟨l, hl⟩ := hst
      exact ⟨tells_pick (ih hs.pick (hl.hasObject_pick hs.tidy)).1, trivial⟩
  | @nextEntry h h₁ h₂ list position byId concrete data rest changes targets placed q₁ q₂ hconcrete hentry
      hrest ihentry ihrest =>
      obtain ⟨l, hl⟩ := hst
      have he := (evolves_pick h list byId position concrete data).trans hentry.evolves
      have hspares := Heap.Spares.entry hentry.spares
      obtain ⟨hs₁, hl₁⟩ := hl.next hd hs hentry
      have hapart : ∀ (x : ObjectId) (name : String), h₁.HasObject x → (∃ c ∈ targets, h₁.Below c x) →
          h.HasObject x ∧ ¬h.Below (pick h list byId position concrete data).1 x :=
        fun x _ hx htouch => Writes.apart_nextEntry hd hconcrete hentry hrest hs hl hx htouch
      refine ⟨(tells_pick (ihentry hs.pick (hl.hasObject_pick hs.tidy)).1).append (ihrest hs₁ ⟨l, hl₁⟩).1
        (slot_apart hspares hrest.spares he hapart) (items_apart hs.tidy hspares hrest.spares he hapart),
          trivial⟩
  | list hentries ih => exact ⟨hentries.tells_list hd hs hst (ih hs ⟨_, .of_list hst⟩).1, trivial⟩

section Telling

variable {κ σ : Type}

/-- The reaction of callbacks that look at the heap and change nothing but what they keep for themselves. -/
def looking (see : κ → Event → Heap → σ → σ) : Reaction κ σ := fun k e c =>
  { c with host := see k e c.heap c.host }

/-- What becomes of the state that callbacks keep when they are called on a heap. -/
def looked (see : κ → Event → Heap → σ → σ) (h : Heap) (calls : List (κ × Event)) (host : σ) : σ :=
  calls.foldl (fun host call => see call.1 call.2 h host) host

/-- The calls for a noted change, in their order. -/
def Watch.calls (w : Watch κ) : Notification → List (κ × Event)
  | .field o name => ((w.get (.object o)).callbacksFor name).map fun k => (k, .field o name)
  | .list l changes =>
      changes.flatMap fun change => (w.get (.list l)).callbacks.map fun k => (k, .list l change)

theorem looked_append (see : κ → Event → Heap → σ → σ) (h : Heap)
    (calls later : List (κ × Event)) (host : σ) :
    looked see h (calls ++ later) host = looked see h later (looked see h calls host) :=
  List.foldl_append

theorem tell_looking (see : κ → Event → Heap → σ → σ) (callbacks : List κ) (event : Event) (c : Client κ σ) :
    Client.tell (looking see) callbacks event c =
      { c with host := looked see c.heap (callbacks.map fun k => (k, event)) c.host } := by
  induction callbacks generalizing c with
  | nil => rfl
  | cons k rest ih => exact ih _

theorem notify_looking (see : κ → Event → Heap → σ → σ) (n : Notification) (c : Client κ σ) :
    Client.notify (looking see) n c = { c with host := looked see c.heap (c.watch.calls n) c.host } := by
  cases n with
  | field o name => exact tell_looking see _ _ c
  | list l changes =>
      rw [Client.notify, Watch.calls]
      generalize (c.watch.get (.list l)).callbacks = callbacks
      induction changes generalizing c with
      | nil => rfl
      | cons change rest ih =>
          rw [List.foldl_cons, tell_looking, ih, List.flatMap_cons, looked_append]

theorem notifyAll_looking (see : κ → Event → Heap → σ → σ) (pending : List Notification) (c : Client κ σ) :
    Client.notifyAll (looking see) pending c =
      { c with host := looked see c.heap (pending.flatMap c.watch.calls) c.host } := by
  induction pending generalizing c with
  | nil => rfl
  | cons n rest ih =>
      rw [Client.notifyAll, List.foldl_cons, notify_looking, List.flatMap_cons, looked_append]
      exact ih _

theorem count_ownFields (o : ObjectId) (name : String) (q : List Notification) :
    (ownFields o q).count name = q.count (.field o name) := by
  induction q with
  | nil => rfl
  | cons n rest ih =>
      rw [ownFields] at ih
      rw [ownFields, List.count_cons, ← ih]
      cases n with
      | list l changes => rfl
      | field x other =>
          rw [List.filterMap_cons]
          by_cases hx : x = o
          · subst hx
            simp [Notification.fieldOf?, List.count_cons]
          · simp [Notification.fieldOf?, hx]

/-- **A call tells exactly what it changed.** For an object of a reached heap and any data, the noted
changes are the difference of the heaps before and after the call, also after an error. They are told when
all is written, so that every callback sees the last heap; and the answer of a call that succeeds has
the changed fields of the object, each once and in the order in which they are told. -/
theorem patch_tells_difference {schema : Introspection.Schema} {graph : TypeGraph} {scalars : Registry}
    {c : Client κ σ} {o : ObjectId} (hgraph : TypeGraph.build schema = .ok graph)
    (hplans : Plans.build graph scalars = .ok c.plans) (hreached : Reached c.plans c.heap)
    (ho : c.heap.HasObject o) (data : Json) :
    ∃ result h' q, outcome (patch c.plans data o) c.heap = (result, h', q) ∧
      c.heap.Tells h' q ∧
      (∀ changes, result = .ok changes → changes = ownFields o q ∧ changes.Nodup ∧
        ∀ name, name ∈ changes ↔ c.heap.slot o name ≠ h'.slot o name) ∧
      (∀ react, c.patch react o data = (result, Client.notifyAll react q { c with heap := h' })) ∧
      ∀ see, c.patch (looking see) o data =
        (result, { c with heap := h', host := looked see h' (q.flatMap c.watch.calls) c.host }) := by
  have hd : c.plans.Distinct := Plans.distinct_of_build hgraph hplans
  obtain ⟨⟨result, h', q⟩, hrun⟩ : ∃ run, outcome (patch c.plans data o) c.heap = run := ⟨_, rfl⟩
  have hwrites := writes_patch c.plans o data c.heap
  rw [hrun] at hwrites
  obtain ⟨htells, hreports⟩ := hwrites.tells_reports hd (hreached.sound hd) ho
  have hpatch : ∀ react, c.patch react o data = (result, Client.notifyAll react q { c with heap := h' }) := by
    intro react
    change ((outcome (patch c.plans data o) c.heap).1,
      Client.notifyAll react (outcome (patch c.plans data o) c.heap).2.2
        { c with heap := (outcome (patch c.plans data o) c.heap).2.1 }) = _
    rw [hrun]
  refine ⟨result, h', q, hrun, htells, fun changes hok => ?_, hpatch, fun see => ?_⟩
  · have hown : ownFields o q = changes := hreports changes hok
    have hcount : ∀ name, changes.count name = if c.heap.slot o name = h'.slot o name then 0 else 1 := by
      intro name
      rw [← hown, count_ownFields, htells.field]
    refine ⟨hown.symm, List.nodup_iff_count_le_one.2 fun name => ?_, fun name => ?_⟩
    · rw [hcount]
      split <;> omega
    · rw [← List.count_pos_iff, hcount]
      split <;> simp_all
  · rw [hpatch, notifyAll_looking]

end Telling

section Sample

/-- A client of the small schema that watches the title and the list of the users. -/
def sampleClient : Client String Unit :=
  let c : Client String Unit := { Client.create (samplePlans []) () with heap := grownHeap }
  ((c.observe (.object ⟨0⟩) (some "title") "title").2.observe (.list ⟨0⟩) none "users").2

/-- What is told when other news come, with the changes of the list of users. -/
def newsChanges (changes : List (ListChange ObjectId)) : List Notification :=
  [.field ⟨0⟩ "title", .field ⟨2⟩ "name", .field ⟨3⟩ "id", .field ⟨3⟩ "name", .list ⟨0⟩ changes]

/-- The title and a name change, a user comes, and the list tells who leaves and who comes. Where an entry
is refused, the same is told of the title and the users, and the list tells who moves and who comes. -/
theorem patch_sample_tells_difference :
    Reached sampleClient.plans sampleClient.heap ∧ sampleClient.heap.HasObject ⟨0⟩ ∧
      (∃ h', let q := newsChanges [.removed 0 ⟨1⟩, .inserted 1 ⟨3⟩]
        outcome (patch sampleClient.plans (newsData []) ⟨0⟩) sampleClient.heap = (.ok ["title"], h', q) ∧
          sampleClient.heap.Tells h' q ∧
          (["title"] = ownFields ⟨0⟩ q ∧ ["title"].Nodup ∧
            ∀ name, name ∈ ["title"] ↔ sampleClient.heap.slot ⟨0⟩ name ≠ h'.slot ⟨0⟩ name) ∧
          (∀ react, sampleClient.patch react ⟨0⟩ (newsData []) =
            (.ok ["title"], Client.notifyAll react q { sampleClient with heap := h' })) ∧
          ∀ see, sampleClient.patch (looking see) ⟨0⟩ (newsData []) = (.ok ["title"], { sampleClient with
            heap := h',
            host := looked see h' [("title", .field ⟨0⟩ "title"), ("users", .list ⟨0⟩ (.removed 0 ⟨1⟩)),
              ("users", .list ⟨0⟩ (.inserted 1 ⟨3⟩))] () })) ∧
      ∃ h', let q := newsChanges [.moved 1 0, .inserted 1 ⟨3⟩]
        outcome (patch sampleClient.plans (newsData [.null]) ⟨0⟩) sampleClient.heap =
            (.error (.expectedObject "User"), h', q) ∧
          sampleClient.heap.Tells h' q ∧
          ∀ see, sampleClient.patch (looking see) ⟨0⟩ (newsData [.null]) =
            (.error (.expectedObject "User"), { sampleClient with
              heap := h',
              host := looked see h' [("title", .field ⟨0⟩ "title"), ("users", .list ⟨0⟩ (.moved 1 0)),
                ("users", .list ⟨0⟩ (.inserted 1 ⟨3⟩))] () }) := by
  have hplans : Plans.build (sampleGraph []) .standard = .ok sampleClient.plans := build_samplePlans
  refine ⟨reached_grownHeap, hasObject_grownHeap, ?_, ?_⟩
  · obtain ⟨result, h', q, hrun, htells, hok, hpatch, hlook⟩ :=
      patch_tells_difference build_sampleSchema hplans
      reached_grownHeap hasObject_grownHeap (newsData [])
    have hresult : (outcome (patch sampleClient.plans (newsData []) ⟨0⟩) sampleClient.heap).1 =
        .ok ["title"] := by
      decide +kernel
    have hq : (outcome (patch sampleClient.plans (newsData []) ⟨0⟩) sampleClient.heap).2.2 =
        newsChanges [.removed 0 ⟨1⟩, .inserted 1 ⟨3⟩] := by decide +kernel
    rw [hrun] at hresult hq
    obtain rfl : result = .ok ["title"] := hresult
    obtain rfl : q = newsChanges [.removed 0 ⟨1⟩, .inserted 1 ⟨3⟩] := hq
    exact ⟨h', hrun, htells, hok _ rfl, hpatch, hlook⟩
  · obtain ⟨result, h', q, hrun, htells, -, -, hlook⟩ := patch_tells_difference build_sampleSchema hplans
      reached_grownHeap hasObject_grownHeap (newsData [.null])
    have hresult : (outcome (patch sampleClient.plans (newsData [.null]) ⟨0⟩) sampleClient.heap).1 =
        .error (.expectedObject "User") := by decide +kernel
    have hq : (outcome (patch sampleClient.plans (newsData [.null]) ⟨0⟩) sampleClient.heap).2.2 =
        newsChanges [.moved 1 0, .inserted 1 ⟨3⟩] := by decide +kernel
    rw [hrun] at hresult hq
    obtain rfl : result = .error (.expectedObject "User") := hresult
    obtain rfl : q = newsChanges [.moved 1 0, .inserted 1 ⟨3⟩] := hq
    exact ⟨h', hrun, htells, hlook⟩

end Sample

end GraphClient.Live
