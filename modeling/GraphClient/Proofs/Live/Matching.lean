import GraphClient.Proofs.Live.Diff
import GraphClient.Proofs.Live.Moves
import GraphClient.Proofs.Live.Ownership
import GraphClient.Proofs.Live.Repetition

/-! Which elements a list keeps. The ids of elements are read while other elements are written, but an
element that is still to be had is as it was when the first entry came. So the heap before that tells
for every entry which element it is about, if any: the first one with its id, as long as no entry before
has that id, or the one at its position. Every other entry makes an element that was not there before. -/

namespace GraphClient.Live

variable {plans : Plans}

/-! ### Keyed lists -/

/-- That lists are matched by ids just if all elements that they may have can be told apart so. -/
structure Heap.Keyed (graph : TypeGraph) (h : Heap) : Prop where
  keyed : ∀ {l}, h.HasList l → (h.list l).keyed = graph.isKeyed (h.list l).elementType
  made : ∀ {o field l}, h.slot o field = .list l → h.HasList l

namespace Heap.Keyed

variable {graph : TypeGraph} {h : Heap}

theorem empty : Heap.empty.Keyed graph where
  keyed hl := absurd hl (Nat.not_lt_zero _)
  made hs := absurd (hasObject_of_slot hs nofun) (Nat.not_lt_zero _)

theorem newObject (hk : h.Keyed graph) (typeName : String) : (h.newObject typeName).2.Keyed graph where
  keyed := hk.keyed
  made hs := by
    rw [slot_newObject] at hs
    exact hk.made hs

theorem write (hk : h.Keyed graph) {s : Slot} (hs : ∀ l, s = .list l → h.HasList l) (o : ObjectId)
    (field : String) : (h.write o field s).Keyed graph where
  keyed {l} hl := by
    rw [HasList, listsSize_write] at hl
    rw [list_write]
    exact hk.keyed hl
  made {x name l} hslot := by
    rw [HasList, listsSize_write]
    rw [slot_write] at hslot
    split at hslot
    · exact hs l hslot
    · exact hk.made hslot

theorem newList (hk : h.Keyed graph) (element : String) :
    (h.newList element (graph.isKeyed element)).2.Keyed graph where
  keyed {l} hl := by
    rw [list_newList]
    split
    · rfl
    · rename_i hne
      rw [HasList, listsSize_newList] at hl
      have hnumber : l.number ≠ h.lists.size := fun heq => hne (ListId.number_inj.1 heq)
      exact hk.keyed (Nat.lt_of_le_of_ne (Nat.le_of_lt_succ hl) hnumber)
  made {o field l} hs := by
    rw [slot_newList] at hs
    rw [HasList, listsSize_newList]
    exact Nat.lt_succ_of_lt (hk.made hs)

theorem setItems (hk : h.Keyed graph) {l : ListId} (hl : h.HasList l) (items : List ObjectId) :
    (h.setItems l items).2.Keyed graph where
  keyed {k} hk' := by
    rw [HasList, listsSize_setItems hl] at hk'
    rw [list_setItems]
    split <;> exact hk.keyed hk'
  made hs := by
    rw [slot_setItems] at hs
    rw [HasList, listsSize_setItems hl]
    exact hk.made hs

theorem pick (hk : h.Keyed graph) (list : ObjectList) (byId : List (String × ObjectId)) (position : Nat)
    (concrete : String) (data : Json) : (Live.pick h list byId position concrete data).2.Keyed graph := by
  cases hmatch : matchElement h list byId position concrete data with
  | some x =>
      rw [pick_of_match hmatch]
      exact hk
  | none =>
      rw [pick_of_no_match hmatch]
      exact hk.newObject concrete

end Heap.Keyed

/-- That the fields of a goal are fields of some type, and that its list was made. -/
def Goal.Planned (plans : Plans) (h : Heap) : Goal → Prop
  | .fields _ _ those _ _ => ∃ typeName plan, plans.get? typeName = some plan ∧ those ⊆ plan.fields
  | .field _ _ that _ _ => ∃ typeName plan, plans.get? typeName = some plan ∧ that ∈ plan.fields
  | .list l _ _ => h.HasList l
  | .object .. | .entries .. => True

/-- That lists in fields are matched by ids just if all elements that they may have can be told apart so. -/
def Plans.Keyed (plans : Plans) : Prop :=
  ∀ {typeName element plan field isAbstract keyed}, plans.get? typeName = some plan → field ∈ plan.fields →
    field.kind = .objectList element isAbstract keyed → keyed = plans.graph.isKeyed element

theorem Writes.keyed (hp : plans.Keyed) {h h' : Heap} {g : Goal} {q : List Notification}
    (hw : Writes plans h g h' q) (hg : g.Planned plans h) (hk : h.Keyed plans.graph) :
    h'.Keyed plans.graph := by
  induction hw with
  | halt => exact hk
  | object hplan _ ih => exact ih ⟨_, _, hplan, List.Subset.refl _⟩ hk
  | skip _ _ ih =>
      obtain ⟨typeName, plan, hplan, hfields⟩ := hg
      exact ih ⟨typeName, plan, hplan, (List.cons_subset.1 hfields).2⟩ hk
  | stop _ _ ih =>
      obtain ⟨typeName, plan, hplan, hfields⟩ := hg
      exact ih ⟨typeName, plan, hplan, (List.cons_subset.1 hfields).1⟩ hk
  | next _ _ _ ihfield ihrest =>
      obtain ⟨typeName, plan, hplan, hfields⟩ := hg
      exact ihrest ⟨typeName, plan, hplan, (List.cons_subset.1 hfields).2⟩
        (ihfield ⟨typeName, plan, hplan, (List.cons_subset.1 hfields).1⟩ hk)
  | store hdemand =>
      refine hk.write (fun l hs => ?_) _ _
      have hplain := plain_of_demand hdemand
      rw [hs] at hplain
      exact hplain.elim
  | keep _ _ _ ih => exact ih trivial hk
  | replace _ _ _ ih => exact ih trivial ((hk.newObject _).write (fun _ hs => by cases hs) _ _)
  | reuse _ hlist _ ih => exact ih (hk.made (Heap.list?_eq_some.1 hlist)) hk
  | @attach h h' o typeName element keyed field data items result q hdemand hlist _ ih =>
      obtain ⟨typeName', plan, hplan, hfield⟩ := hg
      obtain ⟨isAbstract, hkind⟩ := kind_of_demand_arrange hdemand
      obtain rfl := hp hplan hfield hkind
      have hmade : (h.newList element (plans.graph.isKeyed element)).2.HasList h.nextList := by
        rw [Heap.HasList, Heap.listsSize_newList]
        exact Nat.lt_succ_self _
      refine ih (Heap.made_withList ..) ((hk.newList element).write (fun l hs => ?_) _ _)
      cases hs
      exact hmade
  | stopEntry _ _ ih => exact ih trivial (hk.pick _ _ _ _ _)
  | nextEntry _ _ _ ihentry ihrest => exact ihrest trivial (ihentry trivial (hk.pick _ _ _ _ _))
  | list hentries ih => exact (ih trivial hk).setItems (hentries.evolves.lists hg) _

theorem Reached.keyed (hp : plans.Keyed) {h : Heap} (hr : Reached plans h) : h.Keyed plans.graph := by
  induction hr with
  | empty => exact .empty
  | newObject typeName _ ih => exact ih.newObject typeName
  | @patch h o data _ ho ih => exact (writes_patch plans o data h).keyed hp trivial ih
  | @reconcile h l items _ hl ih => exact (writes_reconcile plans l items h).keyed hp hl ih

/-! ### The element that an entry is about -/

/-- That an entry is about an element. In a keyed list it is the first one with the id of the entry, as long
as no entry before has that id, and for an entry without id the one at the same position, if that has no
id either. In any other list the position decides. The element must be of the type of the entry. -/
inductive Heap.Claims (graph : TypeGraph) (h : Heap) (list : ObjectList) (items : List Json) (i : Nat)
    (x : ObjectId) : Prop
  | id {data : Json} {id : String} (hkeyed : list.keyed = true) (hdata : items[i]? = some data)
      (hwire : wireId? data = some id) (hfirst : ∀ j < i, ∀ d, items[j]? = some d → wireId? d ≠ some id)
      (hitem : list.items.find? (fun y => (h.object y).id? = some id) = some x)
      (htype : concreteElement graph list.elementType data = .ok (h.object x).typeName)
  | blank {data : Json} (hkeyed : list.keyed = true) (hdata : items[i]? = some data)
      (hwire : wireId? data = none) (hitem : list.items[i]? = some x) (hid : (h.object x).id? = none)
      (htype : concreteElement graph list.elementType data = .ok (h.object x).typeName)
  | position {data : Json} (hkeyed : list.keyed = false) (hdata : items[i]? = some data)
      (hitem : list.items[i]? = some x)
      (htype : concreteElement graph list.elementType data = .ok (h.object x).typeName)

theorem mem_wireIds {items : List Json} {i : Nat} {id : String} :
    id ∈ (items.take i).filterMap wireId? ↔ ∃ j < i, ∃ d, items[j]? = some d ∧ wireId? d = some id := by
  constructor
  · intro hmem
    obtain ⟨d, hd, hwire⟩ := List.mem_filterMap.1 hmem
    obtain ⟨j, hj⟩ := List.mem_iff_getElem?.1 hd
    rw [List.getElem?_take] at hj
    obtain ⟨hlt, hj⟩ := Option.ite_none_right_eq_some.1 hj
    exact ⟨j, hlt, d, hj, hwire⟩
  · rintro ⟨j, hlt, d, hj, hwire⟩
    refine List.mem_filterMap.2 ⟨d, List.mem_iff_getElem?.2 ⟨j, ?_⟩, hwire⟩
    rw [List.getElem?_take, if_pos hlt, hj]

/-- An entry is about the element that is matched to it, when those are left out that entries before name. -/
theorem claims_iff {graph : TypeGraph} {h : Heap} {list : ObjectList} {items : List Json}
    {i : Nat} {data : Json} {concrete : String} {x : ObjectId} (hdata : items[i]? = some data)
    (hconcrete : concreteElement graph list.elementType data = .ok concrete) :
    h.Claims graph list items i x ↔ matchElement h list
      ((elementIds h list).filter fun e => e.1 ∉ (items.take i).filterMap wireId?) i concrete data =
        some x := by
  rw [matchElement, Option.filter_eq_some_iff, decide_eq_true_eq]
  constructor
  · intro hclaims
    cases hclaims with
    | id hkeyed hdata' hwire hfirst hitem htype =>
        obtain rfl := Option.some.inj (hdata.symm.trans hdata')
        rw [hconcrete, Except.ok.injEq] at htype
        have hnot : ∀ s, wireId? data = some s → s ∉ (items.take i).filterMap wireId? := by
          intro s hs hmem
          obtain ⟨j, hj, d, hd, hwire'⟩ := mem_wireIds.1 hmem
          exact hfirst j hj d hd (hwire'.trans (hs.symm.trans hwire))
        rw [if_pos hkeyed, hwire]
        dsimp only
        rw [lookup_filter_notMem, if_neg (hnot _ hwire), lookup_elementIds hkeyed]
        exact ⟨hitem, htype.symm⟩
    | blank hkeyed hdata' hwire hitem hid htype =>
        obtain rfl := Option.some.inj (hdata.symm.trans hdata')
        rw [hconcrete, Except.ok.injEq] at htype
        rw [if_pos hkeyed, hwire]
        exact ⟨Option.filter_eq_some_iff.2 ⟨hitem, Option.isNone_iff_eq_none.2 hid⟩, htype.symm⟩
    | position hkeyed hdata' hitem htype =>
        obtain rfl := Option.some.inj (hdata.symm.trans hdata')
        rw [hconcrete, Except.ok.injEq] at htype
        rw [if_neg (Bool.eq_false_iff.1 hkeyed)]
        exact ⟨hitem, htype.symm⟩
  · rintro ⟨hcandidate, rfl⟩
    by_cases hkeyed : list.keyed = true
    · rw [if_pos hkeyed] at hcandidate
      cases hwire : wireId? data with
      | some id =>
          rw [hwire] at hcandidate
          dsimp only at hcandidate
          rw [lookup_filter_notMem, lookup_elementIds hkeyed] at hcandidate
          obtain ⟨hnot, hitem⟩ := Option.ite_none_left_eq_some.1 hcandidate
          refine .id hkeyed hdata hwire (fun j hj d hd hwire' => hnot ?_) hitem hconcrete
          exact mem_wireIds.2 ⟨j, hj, d, hd, hwire'⟩
      | none =>
          rw [hwire] at hcandidate
          obtain ⟨hitem, hid⟩ := Option.filter_eq_some_iff.1 hcandidate
          exact .blank hkeyed hdata hwire hitem (Option.isNone_iff_eq_none.1 hid) hconcrete
    · rw [if_neg hkeyed] at hcandidate
      exact .position (Bool.eq_false_iff.2 hkeyed) hdata hcandidate hconcrete

/-- An entry is about one element at most. -/
theorem Heap.Claims.unique {graph : TypeGraph} {h : Heap} {list : ObjectList} {items : List Json} {i : Nat}
    {x y : ObjectId} (hx : h.Claims graph list items i x) (hy : h.Claims graph list items i y) : x = y := by
  obtain ⟨data, concrete, hdata, hconcrete⟩ : ∃ data concrete, items[i]? = some data ∧
      concreteElement graph list.elementType data = .ok concrete := by
    cases hx with
    | id _ hdata _ _ _ htype => exact ⟨_, _, hdata, htype⟩
    | blank _ hdata _ _ _ htype => exact ⟨_, _, hdata, htype⟩
    | position _ hdata _ htype => exact ⟨_, _, hdata, htype⟩
  have heq := ((claims_iff hdata hconcrete).1 hx).symm.trans ((claims_iff hdata hconcrete).1 hy)
  exact Option.some.inj heq

/-! ### Entries one by one -/

/-- What is known of a list when the entry at a position comes: elements that are still to be had are as
they were in the heap before the first entry. -/
structure Stage (plans : Plans) (first h : Heap) (l : ListId) (list : ObjectList) (items : List Json)
    (position : Nat) (byId : List (String × ObjectId)) : Prop where
  sound : h.Sound plans
  listed : Listed h l list byId
  recalls : ∃ earlier, Recalls first h list position byId earlier
  offers : byId = (elementIds first list).filter fun e => e.1 ∉ (items.take position).filterMap wireId?
  slots : ∀ x, Offered h list position byId x → ∀ name, h.slot x name = first.slot x name

namespace Stage

variable {first h h₁ : Heap} {l : ListId} {list : ObjectList} {items : List Json} {position : Nat}
  {byId : List (String × ObjectId)} {concrete : String} {data : Json}

theorem of_list (hs : h.Sound plans) (hl : h.HasList l) (items : List Json) :
    Stage plans h h l (h.list l) items 0 (elementIds h (h.list l)) :=
  ⟨hs, .of_list hl, ⟨[], .of_list hs.tidy l⟩, by simp, fun _ _ _ => rfl⟩

theorem next (hd : plans.Distinct) (hstage : Stage plans first h l list items position byId)
    (hdata : items[position]? = some data) {changes : List String} {q : List Notification}
    (hentry : Writes plans (pick h list byId position concrete data).2
      (.object (pick h list byId position concrete data).1 data (.ok changes)) h₁ q) :
    Stage plans first h₁ l list items (position + 1) (afterEntry data byId) := by
  obtain ⟨hs, hl, ⟨earlier, hr⟩, hoffers, hslots⟩ := hstage
  have hspares := Heap.Spares.entry hentry.spares
  obtain ⟨hs₁, hl₁⟩ := hl.next hd hs hentry
  refine ⟨hs₁, hl₁, ⟨_, hr.next hd hs hl hentry⟩, ?_, fun y hy name => ?_⟩
  · rw [hoffers]
    exact afterEntry_filter hdata
  · obtain ⟨hoffered, hne⟩ := hl.offered_next hd hs hentry hy
    have hitem := hl.mem_items_of_offered hoffered
    rw [hspares.slot (hl.hasObject hs.tidy y hitem) fun hbelow => hne ?_, hslots y hoffered]
    exact (hs.tidy.eq_of_below_target hl.pick_mem_items (hl.same ▸ hitem) hbelow).symm

theorem hasObject_pick (hstage : Stage plans first h l list items position byId) (concrete : String)
    (data : Json) : (pick h list byId position concrete data).2.HasObject
      (pick h list byId position concrete data).1 :=
  hstage.listed.hasObject_pick hstage.sound.tidy

theorem evolves (hstage : Stage plans first h l list items position byId) : first.Evolves h :=
  let ⟨_, hr⟩ := hstage.recalls
  hr.evolves

/-- An entry is matched as it would be in the heap before the first entry. -/
theorem matchElement_eq (hstage : Stage plans first h l list items position byId)
    (concrete : String) (data : Json) :
    matchElement h list byId position concrete data =
      matchElement first list byId position concrete data := by
  obtain ⟨earlier, hr⟩ := hstage.recalls
  have htype : ∀ candidate : Option ObjectId, (∀ x, candidate = some x → x ∈ list.items) →
      candidate.filter (fun x => (h.object x).typeName = concrete) =
        candidate.filter (fun x => (first.object x).typeName = concrete) := by
    intro candidate hmem
    cases candidate with
    | none => rfl
    | some x =>
        rw [Option.filter_some, Option.filter_some, hr.evolves.typeName (hr.items x (hmem x rfl))]
  have hat : ∀ x, list.items[position]? = some x → x ∈ list.items := fun x => List.mem_of_getElem?
  rw [matchElement, matchElement]
  by_cases hkeyed : list.keyed = true
  · rw [if_pos hkeyed, if_pos hkeyed]
    cases wireId? data with
    | some id => exact htype _ fun x hx => (hstage.listed.ids _ (mem_of_lookup hx)).2.1
    | none =>
        have hblank : (list.items[position]?.filter fun x => (h.object x).id?.isNone) =
            list.items[position]?.filter fun x => (first.object x).id?.isNone := by
          cases hitem : list.items[position]? with
          | none => rfl
          | some x =>
              rw [Option.filter_some, Option.filter_some, hr.isNone_id? hstage.sound.tidy hkeyed hitem]
        dsimp only
        rw [hblank]
        exact htype _ fun x hx => hat x (Option.filter_eq_some_iff.1 hx).1
  · rw [if_neg hkeyed, if_neg hkeyed]
    exact htype _ hat

/-- An entry is about the element that is matched to it when it comes. -/
theorem claims_iff (hstage : Stage plans first h l list items position byId)
    (hdata : items[position]? = some data)
    (hconcrete : concreteElement plans.graph list.elementType data = .ok concrete) {x : ObjectId} :
    first.Claims plans.graph list items position x ↔
      matchElement h list byId position concrete data = some x := by
  rw [Live.claims_iff hdata hconcrete, hstage.matchElement_eq, hstage.offers]

end Stage

/-! ### Placed elements -/

/-- How an element came to its place, and whether that changed it: entries before it were written, then its
own entry, and then those that follow. -/
inductive Placing (plans : Plans) (first final : Heap) (l : ListId) (list : ObjectList) (items : List Json)
    (i : Nat) : ObjectId → Bool → Prop
  | intro {h h₁ : Heap} {byId : List (String × ObjectId)} {concrete : String} {data : Json}
      {changes : List String} {targets : List ObjectId} {placed : Placed} {q₁ q₂ : List Notification}
      (hstage : Stage plans first h l list items i byId) (hdata : items[i]? = some data)
      (hconcrete : concreteElement plans.graph list.elementType data = .ok concrete)
      (hentry : Writes plans (pick h list byId i concrete data).2
        (.object (pick h list byId i concrete data).1 data (.ok changes)) h₁ q₁)
      (hrest : Writes plans h₁ (.entries list (i + 1) (afterEntry data byId)
        (items.drop (i + 1)) targets placed)
        final q₂) :
      Placing plans first final l list items i (pick h list byId i concrete data).1 (!changes.isEmpty)

section Entries

variable {h final : Heap} {l : ListId} {list : ObjectList} {position : Nat} {byId : List (String × ObjectId)}
  {rest : List Json} {targets : List ObjectId} {placed : Placed} {q : List Notification}

theorem Writes.mem_changed (hw : Writes plans h (.entries list position byId rest targets placed) final q) :
    ∀ e ∈ placed.changed, e.1 ∈ placed.items := by
  induction rest generalizing h position byId targets placed q with
  | nil =>
      cases hw with
      | halt hhalt =>
          cases hhalt
          exact fun e he => absurd he List.not_mem_nil
  | cons data rest ih =>
      cases hw with
      | halt hhalt =>
          cases hhalt
          exact fun e he => absurd he List.not_mem_nil
      | stopEntry => exact fun e he => absurd he List.not_mem_nil
      | nextEntry hconcrete hentry hrest =>
          intro e he
          rcases List.mem_append.1 he with he | he
          · exact List.mem_cons_of_mem _ (ih hrest e he)
          · rw [List.mem_singleton.1 he]
            exact List.mem_cons_self

/-- There is an element for every entry, or for every one before that with an error. -/
theorem Writes.length_placed (hw : Writes plans h (.entries list position byId rest targets placed) final q) :
    (placed.error = none → placed.items.length = rest.length) ∧
      ∀ e, placed.error = some e → placed.items.length < rest.length := by
  induction rest generalizing h position byId targets placed q with
  | nil =>
      cases hw with
      | halt hhalt =>
          cases hhalt
          exact ⟨fun _ => rfl, fun e he => nomatch he⟩
  | cons data rest ih =>
      cases hw with
      | halt hhalt =>
          cases hhalt
          exact ⟨nofun, fun e _ => Nat.succ_pos _⟩
      | stopEntry => exact ⟨nofun, fun e _ => Nat.succ_pos _⟩
      | nextEntry hconcrete hentry hrest =>
          obtain ⟨hall, herror⟩ := ih hrest
          exact ⟨fun hnone => congrArg (· + 1) (hall hnone), fun e he => Nat.succ_lt_succ (herror e he)⟩

/-- The entries of a list place its elements one by one. -/
theorem Writes.placing (hd : plans.Distinct) {first : Heap} {items : List Json}
    (hw : Writes plans h (.entries list position byId rest targets placed) final q)
    (hstage : Stage plans first h l list items position byId) (hrest : rest = items.drop position) {k : Nat}
    {x : ObjectId} (hx : placed.items[k]? = some x) :
    ∃ changed, Placing plans first final l list items (position + k) x changed ∧
      placed.changed.lookup x = some changed := by
  induction rest generalizing h position byId targets placed q k with
  | nil =>
      cases hw with
      | halt hhalt =>
          cases hhalt
          cases hx
  | cons data rest ih =>
      have hdata := getElem?_of_eq_drop hrest
      have hdrop : rest = items.drop (position + 1) := by
        rw [← List.drop_drop, ← hrest]
        rfl
      cases hw with
      | halt hhalt =>
          cases hhalt
          cases hx
      | stopEntry => cases hx
      | nextEntry hconcrete hentry hlater =>
          cases k with
          | zero =>
              cases hx
              -- no later element is this one, so nothing else is noted of it
              have hnodup := ((Writes.nextEntry hconcrete hentry hlater).sound_meets hd hstage.sound
                ⟨l, hstage.listed⟩).2.1
              refine ⟨_, .intro hstage hdata hconcrete hentry (hdrop ▸ hlater), ?_⟩
              rw [List.lookup_append, List.lookup_eq_none_iff.2 fun e he => ?_, Option.none_or]
              · simp
              · rw [bne_iff_ne]
                intro heq
                have hmem := hlater.evolves_picks.2.2.subset (hlater.mem_changed e he)
                exact (List.nodup_cons.1 hnodup).1 (heq ▸ hmem)
          | succ k =>
              obtain ⟨changed, hplacing, hlookup⟩ := ih hlater (hstage.next hd hdata hentry) hdrop hx
              refine ⟨changed, ?_, by rw [List.lookup_append, hlookup, Option.some_or]⟩
              rwa [Nat.add_assoc, Nat.add_comm 1 k] at hplacing

end Entries

namespace Placing

variable {first final : Heap} {l : ListId} {list : ObjectList} {items : List Json} {i : Nat} {x : ObjectId}
  {changed : Bool}

/-- A placed element is of the type of its entry. -/
theorem typeName (hp : Placing plans first final l list items i x changed) : ∃ data, items[i]? = some data ∧
    concreteElement plans.graph list.elementType data = .ok (final.object x).typeName := by
  cases hp with
  | intro hstage hdata hconcrete hentry hrest =>
      refine ⟨_, hdata, ?_⟩
      rw [(hentry.evolves.trans hrest.evolves).typeName (hstage.hasObject_pick _ _), typeName_pick, hconcrete]

/-- A placed element is the one that its entry is about, or a new one if there is none. -/
theorem claims_or_new (hp : Placing plans first final l list items i x changed) :
    first.Claims plans.graph list items i x ∨
      (¬first.HasObject x ∧ ∀ y, ¬first.Claims plans.graph list items i y) := by
  cases hp with
  | @intro h h₁ byId concrete data changes targets placed q₁ q₂ hstage hdata hconcrete hentry hrest =>
      cases hmatch : matchElement h list byId i concrete data with
      | some y =>
          rw [pick_of_match hmatch]
          exact .inl ((hstage.claims_iff hdata hconcrete).2 hmatch)
      | none =>
          rw [pick_of_no_match hmatch]
          refine .inr ⟨fun hold => h.not_hasObject_nextObject (hstage.evolves.objects hold), fun y hy => ?_⟩
          rw [hstage.claims_iff hdata hconcrete, hmatch] at hy
          cases hy

/-- An old element is told to be changed if one of its slots is another one than before. -/
theorem changed_iff (hd : plans.Distinct) (hp : Placing plans first final l list items i x changed)
    (hx : first.HasObject x) : changed = true ↔ ∃ name, final.slot x name ≠ first.slot x name := by
  cases hp with
  | @intro h h₁ byId concrete data changes targets placed q₁ q₂ hstage hdata hconcrete hentry hrest =>
      have hmade := hstage.hasObject_pick concrete data
      have ht := hstage.sound.tidy
      obtain ⟨htells, hreports⟩ := hentry.tells_reports hd hstage.sound.pick hmade
      have hold := hstage.evolves.objects hx
      -- nothing was written into it before, and nothing is afterwards
      have hbefore : ∀ name, (pick h list byId i concrete data).2.slot
          (pick h list byId i concrete data).1 name =
          first.slot (pick h list byId i concrete data).1 name := fun name => by
        rw [Heap.slot, object_pick hold]
        rcases offered_pick list i byId concrete data ht with hoffered | ⟨hnew, -⟩
        · exact hstage.slots _ hoffered name
        · exact absurd hold hnew
      have hafter : ∀ name, final.slot (pick h list byId i concrete data).1 name =
          h₁.slot (pick h list byId i concrete data).1 name := fun name =>
        (Writes.same_nextEntry hd hconcrete hentry hrest hstage.sound hstage.listed).slot .refl name
      have hcount : ∀ name, changes.count name =
          if first.slot (pick h list byId i concrete data).1 name =
            final.slot (pick h list byId i concrete data).1 name then 0 else 1 := fun name => by
        rw [← hreports changes rfl, count_ownFields, htells.field, hbefore, hafter]
      rw [Bool.not_eq_true', List.isEmpty_eq_false_iff_exists_mem]
      refine exists_congr fun name => ?_
      rw [← List.count_pos_iff, hcount]
      split <;> simp_all [eq_comm]

end Placing

/-! ### Whole lists -/

theorem Heap.Claims.lt_length {graph : TypeGraph} {h : Heap} {list : ObjectList} {items : List Json} {i : Nat}
    {x : ObjectId} (hx : h.Claims graph list items i x) : i < items.length := by
  cases hx with
  | id _ hdata _ _ _ _ => exact (List.getElem?_eq_some_iff.1 hdata).1
  | blank _ hdata _ _ _ _ => exact (List.getElem?_eq_some_iff.1 hdata).1
  | position _ hdata _ _ => exact (List.getElem?_eq_some_iff.1 hdata).1

/-- That indices are those with a property, each once and in order. -/
def Lists (indices : List Nat) (p : Nat → Prop) : Prop :=
  indices.Pairwise (· < ·) ∧ ∀ i, i ∈ indices ↔ p i

/-- What has become of a list that was made what entries say. -/
structure Heap.Matched (graph : TypeGraph) (h h' : Heap) (l : ListId) (items : List Json)
    (r : Reconciliation) : Prop where
  length : (h'.list l).items.length = items.length
  distinct : (h'.list l).items.Nodup
  /-- Every element is of the type of its entry. -/
  type : ∀ (i : Nat) (data : Json), items[i]? = some data → ∃ x, (h'.list l).items[i]? = some x ∧
    concreteElement graph (h.list l).elementType data = .ok (h'.object x).typeName
  /-- An entry that is about an old element has it. -/
  claimed : ∀ (i : Nat) (x : ObjectId), h.Claims graph (h.list l) items i x → (h'.list l).items[i]? = some x
  /-- All other entries have new elements. -/
  fresh : ∀ (i : Nat) (x : ObjectId), (h'.list l).items[i]? = some x → ¬h.Claims graph (h.list l) items i x →
    ¬h.HasObject x ∧ x ∉ (h.list l).items
  inserted : Lists r.inserted fun i => ∃ x, (h'.list l).items[i]? = some x ∧ x ∉ (h.list l).items
  removed : Lists r.removed fun i => ∃ x, (h.list l).items[i]? = some x ∧ x ∉ (h'.list l).items
  updated : Lists r.updated fun i => ∃ x, (h'.list l).items[i]? = some x ∧ x ∈ (h.list l).items ∧
    ∃ name, h'.slot x name ≠ h.slot x name

/-- A derivation for a list, with what its entries placed. -/
theorem Writes.entries_of_list {h h' : Heap} {l : ListId} {items : List Json} {q : List Notification}
    {result : Except PatchError Reconciliation} (hw : Writes plans h (.list l items result) h' q) :
    ∃ targets placed h₁ q₁, Writes plans h
        (.entries (h.list l) 0 (elementIds h (h.list l)) items targets placed) h₁ q₁ ∧
      result = placed.result (h.list l).items (h₁.setItems l (placed.contents (h.list l).items)).1 ∧
      h' = (h₁.setItems l (placed.contents (h.list l).items)).2 ∧
      q = q₁ ++ notedOrder l (h₁.setItems l (placed.contents (h.list l).items)).1 := by
  cases hw with
  | halt hhalt => cases hhalt
  | list hentries => exact ⟨_, _, _, _, hentries, rfl, rfl, rfl⟩

theorem Placed.result_eq_ok {placed : Placed} {old : List ObjectId} {order : Reordering ObjectId}
    {r : Reconciliation} (h : placed.result old order = .ok r) : placed.error = none ∧
      placed.contents old = placed.items ∧ r = ⟨order.inserted, order.removed, order.moved,
        (List.range placed.items.length).filter fun i => placed.items[i]?.any fun o =>
          o ∈ old && (placed.changed.lookup o).getD false⟩ := by
  cases herror : placed.error with
  | some e =>
      rw [Placed.result, herror] at h
      cases h
  | none =>
      have hcontents : placed.contents old = placed.items := by rw [Placed.contents, herror]
      rw [Placed.result, herror, hcontents] at h
      exact ⟨rfl, hcontents, (Except.ok.inj h).symm⟩

/-- The answer tells how the contents are reordered. -/
theorem Writes.reordering_of_list {h h' : Heap} {l : ListId} {items : List Json} {r : Reconciliation}
    {q : List Notification} (hw : Writes plans h (.list l items (.ok r)) h' q) (ht : h.Tidy)
    (hl : h.HasList l) :
    r.inserted = (reorder (h.list l).items (h'.list l).items).inserted ∧
      r.removed = (reorder (h.list l).items (h'.list l).items).removed ∧
        r.moved = (reorder (h.list l).items (h'.list l).items).moved := by
  obtain ⟨targets, placed, h₁, q₁, hentries, hresult, rfl, -⟩ := hw.entries_of_list
  obtain ⟨-, -, rfl⟩ := Placed.result_eq_ok hresult.symm
  have horder : (h₁.setItems l (placed.contents (h.list l).items)).1 =
      reorder (h.list l).items (placed.contents (h.list l).items) := by
    change reorder (h₁.list l).items (placed.contents (h.list l).items) = _
    rw [hentries.list_of_entries ht hl]
  rw [Heap.list_setItems, if_pos rfl, horder]
  exact ⟨rfl, rfl, rfl⟩

/-- The list that is made what entries say is matched with them. -/
theorem Writes.matched (hd : plans.Distinct) {h h' : Heap} {l : ListId} {items : List Json}
    {r : Reconciliation} {q : List Notification} (hw : Writes plans h (.list l items (.ok r)) h' q)
    (hs : h.Sound plans) (hl : h.HasList l) : h.Matched plans.graph h' l items r := by
  have hdistinct := (hw.sound_meets hd hs hl).1.tidy.nodup (l := l)
  obtain ⟨hinserted, hremoved, -⟩ := hw.reordering_of_list hs.tidy hl
  obtain ⟨targets, placed, h₁, q₁, hentries, hresult, rfl, -⟩ := hw.entries_of_list
  obtain ⟨herror, hcontents, rfl⟩ := Placed.result_eq_ok hresult.symm
  rw [hcontents] at hdistinct hinserted hremoved ⊢
  have hlength := hentries.length_placed.1 herror
  have hplacing : ∀ {i x}, placed.items[i]? = some x → ∃ changed,
      Placing plans h h₁ l (h.list l) items i x changed ∧ placed.changed.lookup x = some changed :=
    fun {i x} hx => by simpa using hentries.placing hd (.of_list hs hl items) rfl hx
  have hitems : ((h₁.setItems l placed.items).2.list l).items = placed.items := by
    rw [Heap.list_setItems, if_pos rfl]
  have hclaims : ∀ {i x y}, placed.items[i]? = some x →
      h.Claims plans.graph (h.list l) items i y → x = y := by
    intro i x y hx hy
    obtain ⟨changed, hp, -⟩ := hplacing hx
    rcases hp.claims_or_new with hclaims | ⟨-, hnone⟩
    · exact hclaims.unique hy
    · exact absurd hy (hnone y)
  rw [hitems] at hdistinct
  refine ⟨?_, ?_, fun i data hdata => ?_, fun i x hx => ?_, fun i x hx hnot => ?_, ⟨?_, fun i => ?_⟩,
    ⟨?_, fun i => ?_⟩, ⟨?_, fun i => ?_⟩⟩
  · rw [hitems, hlength]
  · rwa [hitems]
  · have hi : i < placed.items.length := hlength ▸ (List.getElem?_eq_some_iff.1 hdata).1
    obtain ⟨changed, hp, -⟩ := hplacing (List.getElem?_eq_getElem hi)
    obtain ⟨data', hdata', htype⟩ := hp.typeName
    obtain rfl := Option.some.inj (hdata.symm.trans hdata')
    rw [hitems]
    exact ⟨_, List.getElem?_eq_getElem hi, by rw [Heap.typeName_setItems, htype]⟩
  · have hi : i < placed.items.length := hlength ▸ hx.lt_length
    rw [hitems, List.getElem?_eq_getElem hi, hclaims (List.getElem?_eq_getElem hi) hx]
  · rw [hitems] at hx
    obtain ⟨changed, hp, -⟩ := hplacing hx
    rcases hp.claims_or_new with hclaims | ⟨hnew, -⟩
    · exact absurd hclaims hnot
    · exact ⟨hnew, fun hmem => hnew (hs.tidy.item hmem)⟩
  · rw [hinserted]
    exact insertedOf_pairwise _ _
  · rw [hinserted, hitems]
    exact mem_insertedOf_iff hdistinct
  · rw [hremoved]
    exact removedOf_pairwise _ _
  · rw [hremoved, hitems]
    exact mem_removedOf_iff hs.tidy.nodup hdistinct
  · exact List.pairwise_lt_range.filter _
  · simp only [hitems, List.mem_filter, List.mem_range]
    cases hx : placed.items[i]? with
    | none => simp
    | some x =>
        obtain ⟨changed, hp, hlookup⟩ := hplacing hx
        have hi := (List.getElem?_eq_some_iff.1 hx).1
        simp only [hi, true_and, Option.any_some, hlookup, Option.getD_some,
          Bool.and_eq_true, decide_eq_true_eq, Option.some.injEq, exists_eq_left', Heap.slot_setItems]
        exact and_congr_right fun hmem => hp.changed_iff hd (hs.tidy.item hmem)

/-! ### Ids -/

section Built

variable {schema : Introspection.Schema} {graph : TypeGraph} {scalars : Registry}

theorem Plans.keyed (hplans : Plans.build graph scalars = .ok plans) : plans.Keyed := by
  intro typeName element plan field isAbstract keyed hplan hfield hkind
  rw [Plans.graph_of_build hplans]
  exact Plans.keyed_of_build hplans hplan hfield hkind

/-- What the type `ID` is if it has the converter for ids: no enumeration. -/
theorem find?_of_leaf_id (hid : leafOf? graph scalars "ID" = some (.scalar (.standard .id))) :
    ¬graph.HasEnumId ∧ scalars.find? "ID" = some (.standard .id) := by
  rcases idKind_of_leaf hid with ⟨-, typeName, members, hkind⟩ |
    ⟨hnot, ⟨target, hkind | hkind⟩ | ⟨c, hfind, hkind⟩⟩
  · cases hkind
  · cases hkind
  · cases hkind
  · cases hkind
    exact ⟨hnot, hfind⟩

/-- An element of a keyed list has the id of its entry afterwards. -/
theorem Writes.id?_of_entry (hgraph : TypeGraph.build schema = .ok graph)
    (hplans : Plans.build graph scalars = .ok plans)
    (hid : leafOf? graph scalars "ID" = some (.scalar (.standard .id))) {h h' : Heap} {l : ListId}
    {items : List Json} {r : Reconciliation} {q : List Notification}
    (hw : Writes plans h (.list l items (.ok r)) h' q) (hs : h.Sound plans) (hl : h.HasList l)
    (hkeyed : graph.isKeyed (h.list l).elementType = true) {i : Nat} {data : Json}
    {id : String} {x : ObjectId}
    (hdata : items[i]? = some data) (hwire : wireId? data = some id) (hx : (h'.list l).items[i]? = some x) :
    (h'.object x).id? = some id := by
  have hd : plans.Distinct := Plans.distinct_of_build hgraph hplans
  have hs' := (hw.sound_meets hd hs hl).1
  have hmerges := hw.merges hd hs hl
  obtain ⟨concrete, base, hconcrete, hmerge, hbase, -⟩ := (getElem?_of_mergeEntries hmerges).2 hdata
    (by rw [List.getElem?_map, hx, Option.map_some])
  rw [Plans.graph_of_build hplans] at hconcrete
  obtain ⟨-, -, -, plan, -, -, -, hplan, -⟩ := merge_eq_ok hbase hmerge
  obtain ⟨field, hfield, hname, hkind⟩ := Plans.idKind_of_build hgraph hplans hkeyed
    (admits_of_concreteElement hconcrete) hplan
  obtain ⟨hnot, hfind⟩ := find?_of_leaf_id hid
  rw [← hs'.tidy.id?_snapshot (hs'.tidy.item (List.mem_of_getElem? hx))]
  refine id?_merge_of_idKind hd hbase hmerge hplan hfield hname ?_ hwire
  rcases hkind with ⟨henum, -⟩ | ⟨-, hcomposite | ⟨c, hfind', hleaf⟩⟩
  · exact absurd henum hnot
  · exact .inl hcomposite
  · rw [hfind, Option.some.injEq] at hfind'
    exact .inr (hfind' ▸ hleaf)

/-- **Elements are matched exactly.** A list of a reached heap is keyed just if all its possible elements can
be told apart by ids. When it is made what entries say and that succeeds, every entry has an element of
its own: the old one that it is about, or a new one; and in a keyed list the element has the id of the
entry from then on. The answer lists the new, the lost and the changed elements. -/
theorem reconcile_matches (hgraph : TypeGraph.build schema = .ok graph)
    (hplans : Plans.build graph scalars = .ok plans)
    (hid : leafOf? graph scalars "ID" = some (.scalar (.standard .id))) {h h' : Heap}
    (hreached : Reached plans h) {l : ListId} (hl : h.HasList l) {items : List Json} {r : Reconciliation}
    {q : List Notification} (hrun : outcome (reconcile plans l items) h = (.ok r, h', q)) :
    (h.list l).keyed = graph.isKeyed (h.list l).elementType ∧ h.Matched graph h' l items r ∧
      ((h.list l).keyed = true → ∀ (i : Nat) (data : Json) (id : String) (x : ObjectId),
        items[i]? = some data →
        wireId? data = some id → (h'.list l).items[i]? = some x → (h'.object x).id? = some id) := by
  have hd : plans.Distinct := Plans.distinct_of_build hgraph hplans
  have hs := hreached.sound hd
  have hkeyed := (hreached.keyed (Plans.keyed hplans)).keyed hl
  have hw := writes_reconcile plans l items h
  rw [hrun] at hw
  have hmatched := hw.matched hd hs hl
  rw [Plans.graph_of_build hplans] at hkeyed hmatched
  refine ⟨hkeyed, hmatched, fun hk i data id x hdata hwire hx => ?_⟩
  exact hw.id?_of_entry hgraph hplans hid hs hl (hkeyed ▸ hk) hdata hwire hx

end Built

section Sample

theorem leafOf?_sampleGraph : leafOf? (sampleGraph []) .standard "ID" = some (.scalar (.standard .id)) := rfl

theorem reached_sampleGrove : Reached (samplePlans []) sampleGrove.heap :=
  .patch _ (reached_sampleHeap _) hasObject_sampleHeap

/-- A user that is told by its id. -/
def userNamed (id : String) : Json := .object [("id", .string id)]

/-- Of two users the second one stays and comes first, and behind it comes a new one. -/
theorem reconcile_matches_sampleGrove :
    ∃ r h' q, outcome (reconcile (samplePlans []) ⟨0⟩ [userNamed "b", userNamed "c"]) sampleGrove.heap =
        (.ok r, h', q) ∧
      sampleGrove.heap.Matched (sampleGraph []) h' ⟨0⟩ [userNamed "b", userNamed "c"] r ∧
      (h'.list ⟨0⟩).items = [⟨2⟩, ⟨3⟩] ∧ r = ⟨[1], [0], [], []⟩ := by
  have hok : (outcome (reconcile (samplePlans []) ⟨0⟩ [userNamed "b", userNamed "c"]) sampleGrove.heap).1 =
      .ok ⟨[1], [0], [], []⟩ := by decide +kernel
  have hitems : ((outcome (reconcile (samplePlans []) ⟨0⟩ [userNamed "b", userNamed "c"])
      sampleGrove.heap).2.1.list ⟨0⟩).items = [⟨2⟩, ⟨3⟩] := by decide +kernel
  have hl : sampleGrove.heap.HasList ⟨0⟩ := by
    unfold Heap.HasList
    decide +kernel
  obtain ⟨-, hmatched, -⟩ := reconcile_matches build_sampleSchema build_samplePlans leafOf?_sampleGraph
    reached_sampleGrove hl (Prod.ext hok rfl)
  exact ⟨_, _, _, Prod.ext hok rfl, hmatched, hitems, rfl⟩

end Sample

end GraphClient.Live
