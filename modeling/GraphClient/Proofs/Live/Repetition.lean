import GraphClient.Proofs.Live.Refinement
import GraphClient.Proofs.Live.Settled

/-! Writing the same data again. What data says is settled once it was written, and where the trees of
objects are settled nothing is written: every entry finds its element, every slot holds its value, and
lists keep their order. Where the type `ID` is an enumeration this comes to an end at the first keyed
list with an id in it, as the element is not found and a new one takes its place. -/

namespace GraphClient.Live

variable {plans : Plans}

/-! ### Entries in place -/

/-- Entries of different ids. -/
theorem wireId?_ne_of_lt {items : List Json} (hnodup : (items.filterMap wireId?).Nodup) {i j : Nat}
    {data e : Json} {id : String} (hitem : items[i]? = some data)
    (hwire : wireId? data = some id) (hj : j < i)
    (he : items[j]? = some e) : wireId? e ≠ some id := by
  intro heq
  obtain ⟨hi, rfl⟩ := List.getElem?_eq_some_iff.1 hitem
  obtain ⟨hj', rfl⟩ := List.getElem?_eq_some_iff.1 he
  have hpairs := List.pairwise_filterMap.1 hnodup
  exact List.pairwise_iff_getElem.1 hpairs j i hj' hi hj id heq id hwire rfl

/-- An entry that is arranged is about the element at its position. -/
theorem matchElement_of_arranged {h : Heap} {list : ObjectList} {items : List Json} {position : Nat}
    {concrete : String} {data : Json} (ht : h.Tidy) (hmade : ∀ x ∈ list.items, h.HasObject x)
    (harranged : Arranged plans.graph list.elementType list.keyed items (list.items.map h.snapshot))
    (hitem : items[position]? = some data)
    (hconcrete : concreteElement plans.graph list.elementType data = .ok concrete) :
    ∃ x, list.items[position]? = some x ∧ matchElement h list ((elementIds h list).filter fun e =>
      e.1 ∉ (items.take position).filterMap wireId?) position concrete data = some x := by
  have hlength := harranged.length
  rw [List.length_map] at hlength
  have hlt : position < list.items.length := hlength ▸ (List.getElem?_eq_some_iff.1 hitem).1
  obtain ⟨x, hx⟩ : ∃ x, list.items[position]? = some x := ⟨_, List.getElem?_eq_getElem hlt⟩
  have hold := hmade x (List.mem_of_getElem? hx)
  have htree : (list.items.map h.snapshot)[position]? = some (h.snapshot x) := by
    rw [List.getElem?_map, hx]; rfl
  refine ⟨x, hx, ?_⟩
  rw [matchElement, Option.filter_eq_some_iff, decide_eq_true_eq]
  constructor
  · by_cases hkeyed : list.keyed = true
    · have hid := harranged.id hitem htree hkeyed
      rw [ht.id?_snapshot hold] at hid
      rw [if_pos hkeyed]
      cases hwire : wireId? data with
      | none =>
          dsimp only
          rw [hx, Option.filter_eq_some_iff, hid, hwire]
          exact ⟨rfl, rfl⟩
      | some id =>
          dsimp only
          have hearlier : ∀ j e, j < position → items[j]? = some e → wireId? e ≠ some id := fun j e hj he =>
            wireId?_ne_of_lt (harranged.distinct hkeyed) hitem hwire hj he
          rw [lookup_filter_notMem, lookup_elementIds hkeyed, if_neg, List.find?_eq_some_iff_getElem]
          · refine ⟨by rw [hid, hwire, decide_eq_true rfl], position, hlt, ?_, fun j hj => ?_⟩
            · exact (List.getElem?_eq_some_iff.1 hx).2
            · have hjlt := Nat.lt_trans hj hlt
              have hat := List.getElem?_eq_getElem (hlength ▸ hjlt : j < items.length)
              have hown :=
                harranged.id hat (by rw [List.getElem?_map, List.getElem?_eq_getElem hjlt]; rfl) hkeyed
              rw [ht.id?_snapshot (hmade _ (List.getElem_mem hjlt))] at hown
              rw [hown, decide_eq_false (hearlier j _ hj hat)]
              rfl
          · intro hmem
            obtain ⟨e, he, heq⟩ := List.mem_filterMap.1 hmem
            obtain ⟨j, hj, rfl⟩ := List.mem_take_iff_getElem.1 he
            have hjlt : j < items.length := Nat.lt_of_lt_of_le hj (Nat.min_le_right _ _)
            exact hearlier j _ (Nat.lt_of_lt_of_le hj (Nat.min_le_left _ _))
              (List.getElem?_eq_getElem hjlt) heq
    · rw [if_neg hkeyed, hx]
  · obtain ⟨concrete', hconcrete', htype⟩ := harranged.type hitem htree
    rw [hconcrete, Except.ok.injEq] at hconcrete'
    rw [ht.snapshot_eq hold, Snapshot.typeName?, Option.some.injEq] at htype
    rw [htype, hconcrete']

/-! ### Nothing to write -/

/-- That trees are settled for entries that are arranged. -/
def SettledItems (plans : Plans) (element : String) (keyed : Bool) (items : List Json)
    (trees : List Snapshot) :
    Prop :=
  Arranged plans.graph element keyed items trees ∧
    ∀ (i : Nat) (item : Json) (tree : Snapshot), items[i]? = some item → trees[i]? = some tree →
      Settled plans item tree

/-- That what a goal is about is settled for its data. -/
def Goal.Settles (plans : Plans) (h : Heap) : Goal → Prop
  | .object o data _ => Settled plans data (h.snapshot o)
  | .fields o typeName plan data _ => ∀ field ∈ plan, ∀ d, data.get? field.wireName = some d →
      SettledField plans typeName field d ((h.fieldTrees o).get? field.wireName)
  | .field o typeName plan data _ =>
      SettledField plans typeName plan data ((h.fieldTrees o).get? plan.wireName)
  | .entries elements position byId rest _ _ => ∃ items, rest = items.drop position ∧
      byId = (elementIds h elements).filter (fun e => e.1 ∉ (items.take position).filterMap wireId?) ∧
      SettledItems plans elements.elementType elements.keyed items (elements.items.map h.snapshot)
  | .list l items _ =>
      SettledItems plans (h.list l).elementType (h.list l).keyed items ((h.list l).items.map h.snapshot)

/-- That a result tells of no change. -/
def Goal.TellsNothing : Goal → Prop
  | .object _ _ result | .fields _ _ _ _ result => result = .ok []
  | .field _ _ _ _ result => result = .ok false
  | .entries elements position _ _ _ placed =>
      placed.error = none ∧ placed.items = elements.items.drop position
  | .list _ _ result => ∃ updated, result = .ok ⟨[], [], [], updated⟩

/-- A slot is told by its tree if it refers to nothing. -/
theorem slot_eq_of_tree {h : Heap} {o : ObjectId} {name : String} {s : Slot} (hplain : s.Plain)
    (htree : ((h.fieldTrees o).get? name).getD .null = .ofPlain s) : h.slot o name = s := by
  rw [Heap.get?_fieldTrees] at htree
  unfold Heap.slot
  cases hget : (h.object o).get? name with
  | none =>
      rw [hget] at htree
      cases s <;> first | exact hplain.elim | rfl | cases htree
  | some t =>
      rw [hget, Option.map_some, Option.getD_some] at htree
      rw [Option.getD_some]
      cases t with
      | object x =>
          obtain ⟨fields, heq⟩ := h.exists_snapshot_eq x
          rw [Heap.slotTree, heq] at htree
          cases s <;> cases htree
      | _ => cases s <;> first | exact hplain.elim | (cases htree; rfl) | cases htree

theorem settledField_inj {typeName : String} {field : FieldPlan} {data : Json} {tree : Option Snapshot}
    (hsettled : SettledField plans typeName field data tree) :
    match demand plans.graph typeName field data with
    | .store slot => tree.getD .null = .ofPlain slot
    | .fill concrete =>
        ∃ inner, tree = some inner ∧ inner.suits concrete data = true ∧ Settled plans data inner
    | .arrange element keyed items =>
        ∃ trees, tree = some (.list trees) ∧ SettledItems plans element keyed items trees
    | .refuse _ => False := by
  cases hsettled with
  | store hdemand htree =>
      rw [hdemand]
      exact htree
  | fill hdemand hsuits hinner =>
      rw [hdemand]
      exact ⟨_, rfl, hsuits, hinner⟩
  | arrange hdemand harranged hinner =>
      rw [hdemand]
      exact ⟨_, rfl, harranged, hinner⟩

theorem getElem?_of_eq_drop {items rest : List Json} {position : Nat} {data : Json}
    (hrest : data :: rest = items.drop position) : items[position]? = some data := by
  rw [← List.head?_drop, ← hrest, List.head?_cons]

theorem concrete_of_settles {h : Heap} {list : ObjectList} {position : Nat} {byId : List (String × ObjectId)}
    {data : Json} {rest : List Json} {targets : List ObjectId} {placed : Placed}
    (hsettles : Goal.Settles plans h (.entries list position byId (data :: rest) targets placed)) :
    ∃ concrete, concreteElement plans.graph list.elementType data = .ok concrete := by
  obtain ⟨items, hrest, -, harranged, -⟩ := hsettles
  have hitem := getElem?_of_eq_drop hrest
  have hlt : position < (list.items.map h.snapshot).length :=
    harranged.length ▸ (List.getElem?_eq_some_iff.1 hitem).1
  exact (harranged.type hitem (List.getElem?_eq_getElem hlt)).imp fun _ hand => hand.1

/-- The ids that are left after an entry. -/
theorem afterEntry_filter {entries : List (String × ObjectId)} {items : List Json}
    {position : Nat} {data : Json} (hitem : items[position]? = some data) :
    afterEntry data (entries.filter fun e => e.1 ∉ (items.take position).filterMap wireId?) =
      entries.filter fun e => e.1 ∉ (items.take (position + 1)).filterMap wireId? := by
  rw [List.take_add_one, hitem, List.filterMap_append, afterEntry]
  cases hwire : wireId? data with
  | none => simp [hwire]
  | some id =>
      dsimp only
      rw [List.filter_filter]
      apply List.filter_congr
      intro e _
      simp [hwire, and_comm]

/-- The element for an entry is the one at its position. -/
theorem pick_of_settles {h : Heap} {list : ObjectList} {position : Nat} {byId : List (String × ObjectId)}
    {data : Json} {rest : List Json} {targets : List ObjectId} {placed : Placed}
    {concrete : String} (ht : h.Tidy) (hmade : ∀ x ∈ list.items, h.HasObject x)
    (hsettles : Goal.Settles plans h (.entries list position byId (data :: rest) targets placed))
    (hconcrete : concreteElement plans.graph list.elementType data = .ok concrete) :
    ∃ x, pick h list byId position concrete data = (x, h) ∧ list.items[position]? = some x ∧
      Settled plans data (h.snapshot x) := by
  obtain ⟨items, hrest, rfl, harranged, hsettled⟩ := hsettles
  have hitem := getElem?_of_eq_drop hrest
  obtain ⟨x, hx, hmatch⟩ := matchElement_of_arranged ht hmade harranged hitem hconcrete
  refine ⟨x, pick_of_match hmatch, hx, hsettled position data _ hitem ?_⟩
  rw [List.getElem?_map, hx, Option.map_some]

/-- A settled field keeps its object for the data, and the object is settled. -/
theorem kept_of_settled {h : Heap} {o : ObjectId} {typeName concrete : String}
    {field : FieldPlan} {data : Json}
    (ht : h.Tidy) (hdemand : demand plans.graph typeName field data = .fill concrete)
    (hsettled : SettledField plans typeName field data ((h.fieldTrees o).get? field.wireName)) :
    ∃ x, h.kept? o field.wireName concrete data = some x ∧ Settled plans data (h.snapshot x) := by
  have htree := settledField_inj hsettled
  rw [hdemand] at htree
  obtain ⟨inner, hget, hsuits, hsettled⟩ := htree
  have hfilter := ht.filter_fieldTrees o field.wireName concrete data
  rw [hget, Option.filter_some, if_pos hsuits] at hfilter
  obtain ⟨x, hkept, rfl⟩ := Option.map_eq_some_iff.1 hfilter.symm
  exact ⟨x, hkept, hsettled⟩

/-- A settled field has a list for the data, and the list is settled. -/
theorem list_of_settled {h : Heap} {o : ObjectId} {typeName element : String}
    {keyed : Bool} {field : FieldPlan} {data : Json} {items : List Json}
    (hdemand : demand plans.graph typeName field data = .arrange element keyed items)
    (hsettled : SettledField plans typeName field data ((h.fieldTrees o).get? field.wireName)) :
    ∃ l, (h.object o).list? field.wireName = some l ∧
      SettledItems plans element keyed items ((h.list l).items.map h.snapshot) := by
  have htree := settledField_inj hsettled
  rw [hdemand] at htree
  obtain ⟨trees, hget, hsettled⟩ := htree
  rw [Heap.get?_fieldTrees] at hget
  obtain ⟨s, hsome, htree⟩ := Option.map_eq_some_iff.1 hget
  cases s with
  | list l =>
      cases htree
      exact ⟨l, Heap.list?_eq_some.2 (Heap.slot_of_get? hsome), hsettled⟩
  | object x =>
      obtain ⟨fields, heq⟩ := h.exists_snapshot_eq x
      rw [Heap.slotTree, heq] at htree
      cases htree
  | _ => cases htree

/-- A field that holds its value already. -/
theorem store_quiet {h : Heap} {o : ObjectId} {typeName : String} {field : FieldPlan}
    {data : Json} {slot : Slot} (hdemand : demand plans.graph typeName field data = .store slot)
    (hsettled : SettledField plans typeName field data ((h.fieldTrees o).get? field.wireName)) :
    h.write o field.wireName slot = h ∧ noted h o field.wireName slot = [] ∧
      h.differs o field.wireName slot = false := by
  have htree := settledField_inj hsettled
  rw [hdemand] at htree
  have hslot := slot_eq_of_tree (plain_of_demand hdemand) htree
  refine ⟨Heap.write_eq_self hslot, ?_, ?_⟩
  · rw [noted, Heap.differs_eq_decide, if_neg (by simp [hslot])]
  · rw [Heap.differs_eq_decide, decide_eq_false (by simp [hslot])]

/-- Where a goal is settled, it does not end before something is done unless there is nothing to do. -/
theorem Goal.Halts.tellsNothing {h : Heap} {g : Goal} (hhalt : g.Halts plans h) (hs : h.Sound plans)
    (hst : g.Stands plans h) (hsettles : g.Settles plans h) : g.TellsNothing := by
  cases hhalt with
  | @unknownType o data hplan =>
      rw [Goal.Settles, hs.tidy.snapshot_eq hst] at hsettles
      cases hsettles with
      | object hplan' => rw [hplan] at hplan'; cases hplan'
  | @expectedObject o data plan hplan hdata =>
      rw [Goal.Settles, hs.tidy.snapshot_eq hst] at hsettles
      cases hsettles with
      | object => exact absurd rfl (hdata _)
  | noField => rfl
  | refused hdemand =>
      have hfalse := settledField_inj hsettles
      rw [hdemand] at hfalse
      exact hfalse.elim
  | @noEntry list position byId =>
      obtain ⟨items, hrest, -, harranged, -⟩ := hsettles
      have hlength := harranged.length
      rw [List.length_map] at hlength
      refine ⟨rfl, ?_⟩
      rw [List.drop_eq_nil_of_le (hlength ▸ List.drop_eq_nil_iff.1 hrest.symm)]
  | @refusedEntry list position byId data rest e hconcrete =>
      obtain ⟨concrete, hok⟩ := concrete_of_settles hsettles
      rw [hconcrete] at hok
      cases hok

/-- What is settled for entries is settled for those behind the first. -/
theorem Goal.Settles.next {h : Heap} {list : ObjectList} {position : Nat} {byId : List (String × ObjectId)}
    {data : Json} {rest : List Json} {targets targets' : List ObjectId} {placed placed' : Placed}
    (hsettles : Goal.Settles plans h (.entries list position byId (data :: rest) targets placed)) :
    Goal.Settles plans h (.entries list (position + 1) (afterEntry data byId) rest targets' placed') := by
  obtain ⟨items, hdrop, rfl, hall⟩ := hsettles
  refine ⟨items, ?_, afterEntry_filter (getElem?_of_eq_drop hdrop), hall⟩
  rw [← List.tail_drop, ← hdrop, List.tail_cons]

/-- **Where everything is settled, nothing is written.** -/
theorem Writes.quiet (hd : plans.Distinct) {h h' : Heap} {g : Goal} {q : List Notification}
    (hw : Writes plans h g h' q) (hs : h.Sound plans) (hst : g.Stands plans h)
    (hsettles : g.Settles plans h) :
    h' = h ∧ q = [] ∧ g.TellsNothing := by
  induction hw with
  | halt hhalt => exact ⟨rfl, rfl, hhalt.tellsNothing hs hst hsettles⟩
  | @object h h' o members plan result q hplan hfields ih =>
      have hsettled : Settled plans (.object members) (h.snapshot o) := hsettles
      rw [hs.tidy.snapshot_eq hst] at hsettled
      cases hsettled with
      | object hplan' hsettled =>
          obtain rfl := Option.some.inj (hplan.symm.trans hplan')
          exact ih hs (.of_plan hst hplan) hsettled
  | skip hget hrest ih =>
      exact ih hs hst.rest fun field hfield => hsettles field (List.mem_cons_of_mem _ hfield)
  | stop hget hfield ih =>
      obtain ⟨-, -, hok⟩ := ih hs hst.first (hsettles _ List.mem_cons_self _ hget)
      cases hok
  | next hget hfield hrest ihfield ihrest =>
      obtain ⟨rfl, rfl, hok⟩ := ihfield hs hst.first (hsettles _ List.mem_cons_self _ hget)
      cases hok
      obtain ⟨rfl, rfl, hok⟩ := ihrest hs hst.rest fun field hfield =>
        hsettles field (List.mem_cons_of_mem _ hfield)
      cases hok
      exact ⟨rfl, rfl, rfl⟩
  | store hdemand =>
      obtain ⟨hsame, hnoted, hdiffers⟩ := store_quiet hdemand hsettles
      exact ⟨hsame, hnoted, congrArg _ hdiffers⟩
  | keep hdemand hkept hinner ih =>
      obtain ⟨x, hkept', hsettled⟩ := kept_of_settled hs.tidy hdemand hsettles
      obtain rfl := Option.some.inj (hkept.symm.trans hkept')
      obtain ⟨rfl, rfl, hok⟩ := ih hs (hs.tidy.object (Heap.slot_of_kept hkept).1).2 hsettled
      cases hok
      exact ⟨rfl, rfl, rfl⟩
  | replace hdemand hkept hinner ih =>
      obtain ⟨x, hkept', -⟩ := kept_of_settled hs.tidy hdemand hsettles
      cases hkept.symm.trans hkept'
  | reuse hdemand hlist hinner ih =>
      have hslot := Heap.list?_eq_some.1 hlist
      have htype := hs.listType_of_arrange hd hst hdemand hslot
      obtain ⟨l, hlist', hsettled⟩ := list_of_settled hdemand hsettles
      obtain rfl := Option.some.inj (hlist.symm.trans hlist')
      rw [← htype.1, ← htype.2] at hsettled
      obtain ⟨rfl, rfl, updated, rfl⟩ := ih hs (hs.tidy.list hslot) hsettled
      exact ⟨rfl, rfl, rfl⟩
  | attach hdemand hlist hinner ih =>
      obtain ⟨l, hlist', -⟩ := list_of_settled hdemand hsettles
      cases hlist.symm.trans hlist'
  | @stopEntry h h' list position byId concrete data rest e q hconcrete hentry ih =>
      obtain ⟨l, hl⟩ := hst
      obtain ⟨x, hpick, -, hsettled⟩ := pick_of_settles hs.tidy (hl.hasObject hs.tidy) hsettles hconcrete
      have hx : (pick h list byId position concrete data).2.HasObject _ := hl.hasObject_pick hs.tidy
      rw [hpick] at ih hx
      obtain ⟨-, -, hok⟩ := ih hs hx hsettled
      cases hok
  | @nextEntry h h₁ h₂ list position byId concrete data rest changes targets placed q₁ q₂ hconcrete hentry
      hrest ihentry ihrest =>
      obtain ⟨l, hl⟩ := hst
      obtain ⟨x, hpick, hat, hsettled⟩ := pick_of_settles hs.tidy (hl.hasObject hs.tidy) hsettles hconcrete
      have hx : (pick h list byId position concrete data).2.HasObject _ := hl.hasObject_pick hs.tidy
      rw [hpick] at hx
      simp only [hpick] at ihentry ⊢
      obtain ⟨rfl, rfl, hok⟩ := ihentry hs hx hsettled
      cases hok
      have hl₁ : Listed h₁ l list (afterEntry data byId) :=
        ⟨hl.made, hl.same, fun e he => hl.ids e (mem_of_afterEntry he)⟩
      obtain ⟨rfl, rfl, herror, hitems⟩ := ihrest hs ⟨l, hl₁⟩ hsettles.next
      refine ⟨rfl, rfl, herror, ?_⟩
      obtain ⟨hlt, hget⟩ := List.getElem?_eq_some_iff.1 hat
      rw [List.drop_eq_getElem_cons hlt, hget, hitems]
  | @list h h' l items targets placed q hentries ih =>
      obtain ⟨rfl, rfl, herror, hitems⟩ := ih hs ⟨l, .of_list hst⟩ ⟨items, rfl, by simp, hsettles⟩
      -- the elements are put back in the order that they had
      have hcontents : placed.contents (h'.list l).items = (h'.list l).items := by
        rw [Placed.contents, herror]
        exact hitems
      have hself := Heap.setItems_self hst (fun x hx => hs.tidy.item hx) hs.tidy.nodup fun x hx =>
        hs.tidy.owner hx
      rw [hcontents, hself, Placed.result, herror]
      exact ⟨rfl, rfl, _, rfl⟩

/-! ### Ids that are not found -/

/-- That an entry of a keyed list in data has an id. -/
def Named (plans : Plans) (typeName : String) (data : Json) : Prop :=
  ∃ inner e items item, Inside plans typeName data inner e ∧ HasKeyed plans inner e items ∧ item ∈ items ∧
    wireId? item ≠ none

/-- The same for an entry, of which the list may be keyed itself. -/
def NamedEntry (plans : Plans) (element : String) (keyed : Bool) (item : Json) : Prop :=
  (keyed = true ∧ wireId? item ≠ none) ∨
    ∃ concrete, concreteElement plans.graph element item = .ok concrete ∧ Named plans concrete item

/-- The same for the data of a field. -/
def NamedField (plans : Plans) (typeName : String) (field : FieldPlan) (data : Json) : Prop :=
  match demand plans.graph typeName field data with
  | .fill concrete => Named plans concrete data
  | .arrange element keyed items => ∃ item ∈ items, NamedEntry plans element keyed item
  | .store _ | .refuse _ => False

theorem Named.field {typeName : String} {data : Json} {plan : TypePlan} (hn : Named plans typeName data)
    (hplan : plans.get? typeName = some plan) :
    ∃ field ∈ plan.fields, ∃ d, data.get? field.wireName = some d ∧ NamedField plans typeName field d := by
  obtain ⟨inner, e, items, item, hinside, hkeyed, hitem, hwire⟩ := hn
  cases hinside with
  | here =>
      obtain ⟨plan', field, d, element, hplan', hfield, hget, hdemand⟩ := hkeyed
      obtain rfl := Option.some.inj (hplan.symm.trans hplan')
      refine ⟨field, hfield, d, hget, ?_⟩
      rw [NamedField, hdemand]
      exact ⟨item, hitem, .inl ⟨rfl, hwire⟩⟩
  | object hplan' hfield hget hdemand hinside =>
      obtain rfl := Option.some.inj (hplan.symm.trans hplan')
      refine ⟨_, hfield, _, hget, ?_⟩
      rw [NamedField, hdemand]
      exact ⟨inner, e, items, item, hinside, hkeyed, hitem, hwire⟩
  | item hplan' hfield hget hdemand hentry hconcrete hinside =>
      obtain rfl := Option.some.inj (hplan.symm.trans hplan')
      refine ⟨_, hfield, _, hget, ?_⟩
      rw [NamedField, hdemand]
      exact ⟨_, hentry, .inr ⟨_, hconcrete, inner, e, items, item, hinside, hkeyed, hitem, hwire⟩⟩

/-- That a goal comes to its end, and that an entry of a keyed list in its data has an id. -/
def Goal.Names (plans : Plans) (h : Heap) : Goal → Prop
  | .object o data result => (∃ changes, result = .ok changes) ∧ Named plans (h.object o).typeName data
  | .fields _ typeName plan data result => (∃ changes, result = .ok changes) ∧
      ∃ field ∈ plan, ∃ d, data.get? field.wireName = some d ∧ NamedField plans typeName field d
  | .field _ typeName plan data result =>
      (∃ changed, result = .ok changed) ∧ NamedField plans typeName plan data
  | .entries elements _ _ rest _ placed => placed.error = none ∧
      (elements.keyed = true → plans.graph.isKeyed elements.elementType = true) ∧
      ∃ item ∈ rest, NamedEntry plans elements.elementType elements.keyed item
  | .list l items result => (∃ r, result = .ok r) ∧
      ((h.list l).keyed = true → plans.graph.isKeyed (h.list l).elementType = true) ∧
      ∃ item ∈ items, NamedEntry plans (h.list l).elementType (h.list l).keyed item

section Enumerated

variable {schema : Introspection.Schema} {graph : TypeGraph} {scalars : Registry}

/-- No element of a keyed list has an id that is a text. -/
theorem id?_eq_none_of_keyed (hgraph : TypeGraph.build schema = .ok graph)
    (hplans : Plans.build graph scalars = .ok plans) (henum : graph.HasEnumId) {h : Heap} (hs : h.Sound plans)
    {l : ListId} {x : ObjectId} (hkeyed : plans.graph.isKeyed (h.list l).elementType = true)
    (hx : x ∈ (h.list l).items) : (h.object x).id? = none := by
  cases hid : (h.object x).id? with
  | none => rfl
  | some id =>
      have hd : plans.Distinct := Plans.distinct_of_build hgraph hplans
      have hplansGraph := Plans.graph_of_build hplans
      obtain ⟨plan, field, leaf, hplan, hfield, hname, hleaf, htext⟩ := hs.typed.id_field hid
      have hadmits := hs.typed.item hx
      rw [hplansGraph] at hkeyed hadmits
      obtain ⟨other, hother, hname', hkind⟩ := Plans.idKind_of_build hgraph hplans hkeyed hadmits hplan
      obtain rfl := List.inj_on_of_nodup_map (hd hplan) hother hfield (hname'.trans hname.symm)
      rcases hkind with ⟨-, typeName, members, hkind⟩ | ⟨hnot, -⟩
      · rw [hleaf, FieldKind.leaf.injEq] at hkind
        subst hkind
        exact htext.elim
      · exact absurd henum hnot

/-- A list that data asks for is keyed if its elements can be told apart. -/
theorem isKeyed_of_arrange (hplans : Plans.build graph scalars = .ok plans) {h : Heap} {o : ObjectId}
    {typeName element : String} {field : FieldPlan} {data : Json} {keyed : Bool} {items : List Json}
    (hw : h.Writable plans o typeName [field])
    (hdemand : demand plans.graph typeName field data = .arrange element keyed items) :
    keyed = plans.graph.isKeyed element := by
  obtain ⟨plan, hplan, hsub⟩ := hw.plan
  obtain ⟨isAbstract, hkind⟩ := kind_of_demand_arrange hdemand
  rw [Plans.graph_of_build hplans]
  exact Plans.keyed_of_build hplans hplan (hsub.subset List.mem_cons_self) hkind

/-- An entry with an id finds no element. -/
theorem pick_of_keyed (hgraph : TypeGraph.build schema = .ok graph)
    (hplans : Plans.build graph scalars = .ok plans) (henum : graph.HasEnumId) {h : Heap} (hs : h.Sound plans)
    {l : ListId} {list : ObjectList} {byId : List (String × ObjectId)} (hl : Listed h l list byId)
    (hisKeyed : plans.graph.isKeyed list.elementType = true) (hkeyed : list.keyed = true) {data : Json}
    (hwire : wireId? data ≠ none) (position : Nat) (concrete : String) :
    pick h list byId position concrete data = (h.nextObject, (h.newObject concrete).2) := by
  apply pick_of_no_match
  obtain ⟨id, hwire⟩ := Option.ne_none_iff_exists'.1 hwire
  rw [matchElement, if_pos hkeyed, hwire, Option.filter_eq_none_iff]
  intro x hlookup
  obtain ⟨-, hx, hid⟩ := hl.ids _ (mem_of_lookup hlookup)
  rw [← hl.same] at hisKeyed hx
  rw [id?_eq_none_of_keyed hgraph hplans henum hs hisKeyed hx] at hid
  cases hid

theorem Goal.Halts.not_names {h : Heap} {g : Goal} (hhalt : g.Halts plans h) : ¬g.Names plans h := by
  intro hnames
  cases hhalt with
  | unknownType hplan => exact nomatch hnames.1
  | expectedObject hplan hdata => exact nomatch hnames.1
  | noField =>
      obtain ⟨-, field, hfield, -⟩ := hnames
      exact absurd hfield List.not_mem_nil
  | refused hdemand => exact nomatch hnames.1
  | noEntry =>
      obtain ⟨-, -, item, hitem, -⟩ := hnames
      exact absurd hitem List.not_mem_nil
  | refusedEntry hconcrete => exact nomatch hnames.1

/-- An entry makes a new object if it has an id in a keyed list, or if one is made inside of it. -/
theorem size_lt_of_namedEntry (hgraph : TypeGraph.build schema = .ok graph)
    (hplans : Plans.build graph scalars = .ok plans) (henum : graph.HasEnumId) {h h₁ : Heap}
    (hs : h.Sound plans)
    {l : ListId} {list : ObjectList} {byId : List (String × ObjectId)} (hl : Listed h l list byId)
    (hisKeyed : list.keyed = true → plans.graph.isKeyed list.elementType = true)
    {data : Json} {concrete : String}
    {position : Nat} (hconcrete : concreteElement plans.graph list.elementType data = .ok concrete)
    (he : (pick h list byId position concrete data).2.Evolves h₁)
    (hinner : Named plans concrete data →
      (pick h list byId position concrete data).2.objects.size < h₁.objects.size)
    (hnamed : NamedEntry plans list.elementType list.keyed data) : h.objects.size < h₁.objects.size := by
  rcases hnamed with ⟨hkeyed, hwire⟩ | ⟨concrete', hconcrete', hnamed⟩
  · refine Nat.lt_of_lt_of_le ?_ he.size_le
    rw [pick_of_keyed hgraph hplans henum hs hl (hisKeyed hkeyed) hkeyed hwire, Heap.size_newObject]
    exact Nat.lt_succ_self _
  · obtain rfl := Except.ok.inj (hconcrete.symm.trans hconcrete')
    exact Nat.lt_of_le_of_lt (evolves_pick h list byId position concrete data).size_le (hinner hnamed)

/-- **Ids that are enumerated are not found.** -/
theorem Writes.grows (hgraph : TypeGraph.build schema = .ok graph)
    (hplans : Plans.build graph scalars = .ok plans) (henum : graph.HasEnumId) {h h' : Heap} {g : Goal}
    {q : List Notification} (hw : Writes plans h g h' q) (hs : h.Sound plans) (hst : g.Stands plans h)
    (hnames : g.Names plans h) : h.objects.size < h'.objects.size := by
  have hd : plans.Distinct := Plans.distinct_of_build hgraph hplans
  -- objects are never dropped, so it is enough to find the one place where a new one is made
  induction hw with
  | halt hhalt => exact absurd hnames hhalt.not_names
  | object hplan hfields ih => exact ih hs (.of_plan hst hplan) ⟨hnames.1, hnames.2.field hplan⟩
  | skip hget hrest ih =>
      obtain ⟨hok, field, hfield, d, hd, hnamed⟩ := hnames
      rcases List.mem_cons.1 hfield with rfl | hfield
      · rw [hget] at hd
        cases hd
      · exact ih hs hst.rest ⟨hok, field, hfield, d, hd, hnamed⟩
  | stop hget hfield ih => exact nomatch hnames.1
  | @next h h₁ h₂ o typeName field rest data d changed result q₁ q₂ hget hfield hrest ihfield ihrest =>
      obtain ⟨hs₁, hst₁⟩ := hst.next hd hs hfield
      obtain ⟨⟨changes, hok⟩, other, hother, d', hget', hnamed⟩ := hnames
      rcases List.mem_cons.1 hother with rfl | hother
      · obtain rfl := Option.some.inj (hget.symm.trans hget')
        exact Nat.lt_of_lt_of_le (ihfield hs hst.first ⟨⟨changed, rfl⟩, hnamed⟩) hrest.evolves.size_le
      · obtain ⟨later, hresult, -⟩ := Except.map_eq_ok.1 hok
        exact Nat.lt_of_le_of_lt hfield.evolves.size_le
          (ihrest hs₁ hst₁ ⟨⟨later, hresult⟩, other, hother, d', hget', hnamed⟩)
  | store hdemand =>
      have hfalse := hnames.2
      rw [NamedField, hdemand] at hfalse
      exact hfalse.elim
  | @keep h h' o x typeName concrete field data result q hdemand hkept hinner ih =>
      obtain ⟨⟨changed, hok⟩, hnamed⟩ := hnames
      obtain ⟨changes, hresult, -⟩ := Except.map_eq_ok.1 hok
      rw [NamedField, hdemand] at hnamed
      obtain ⟨hslot, htype⟩ := Heap.slot_of_kept hkept
      refine ih hs (hs.tidy.object hslot).2 ⟨⟨changes, hresult⟩, ?_⟩
      rw [htype]
      exact hnamed
  | @replace h h' o typeName concrete field data result q hdemand hkept hinner ih =>
      exact Nat.lt_of_lt_of_le (Heap.made_withObject hst.object field.wireName concrete)
        hinner.evolves.size_le
  | @reuse h h' o l typeName element keyed field data items result q hdemand hlist hinner ih =>
      obtain ⟨⟨changed, hok⟩, hnamed⟩ := hnames
      obtain ⟨r, hresult, -⟩ := Except.map_eq_ok.1 hok
      rw [NamedField, hdemand] at hnamed
      have hslot := Heap.list?_eq_some.1 hlist
      have htype := hs.listType_of_arrange hd hst hdemand hslot
      refine ih hs (hs.tidy.list hslot) ⟨⟨r, hresult⟩, ?_, ?_⟩
      · rw [htype.1, htype.2, isKeyed_of_arrange hplans hst hdemand]
        exact id
      · rw [htype.1, htype.2]
        exact hnamed
  | @attach h h' o typeName element keyed field data items result q hdemand hlist hinner ih =>
      obtain ⟨⟨changed, hok⟩, hnamed⟩ := hnames
      obtain ⟨r, hresult, -⟩ := Except.map_eq_ok.1 hok
      rw [NamedField, hdemand] at hnamed
      have hmade := h.made_withList o field.wireName element keyed
      refine Nat.lt_of_le_of_lt (Heap.Evolves.withList h o field.wireName element keyed).size_le
        (ih (hs.withList hst hdemand) hmade ⟨⟨r, hresult⟩, ?_, ?_⟩)
      · rw [Heap.list_withList_self, isKeyed_of_arrange hplans hst hdemand]
        exact id
      · rw [Heap.list_withList_self]
        exact hnamed
  | stopEntry hconcrete hentry ih => exact nomatch hnames.1
  | @nextEntry h h₁ h₂ list position byId concrete data rest changes targets placed q₁ q₂ hconcrete hentry
      hrest ihentry ihrest =>
      obtain ⟨l, hl⟩ := hst
      obtain ⟨hok, hisKeyed, item, hitem, hnamed⟩ := hnames
      rcases List.mem_cons.1 hitem with rfl | hitem
      · refine Nat.lt_of_lt_of_le ?_ hrest.evolves.size_le
        refine size_lt_of_namedEntry hgraph hplans henum hs hl hisKeyed hconcrete hentry.evolves
          (fun hnamed => ?_) hnamed
        refine ihentry hs.pick (hl.hasObject_pick hs.tidy) ⟨⟨changes, rfl⟩, ?_⟩
        rw [typeName_pick]
        exact hnamed
      · obtain ⟨hs₁, hl₁⟩ := hl.next hd hs hentry
        have he := (evolves_pick h list byId position concrete data).trans hentry.evolves
        exact Nat.lt_of_le_of_lt he.size_le (ihrest hs₁ ⟨l, hl₁⟩ ⟨hok, hisKeyed, item, hitem, hnamed⟩)
  | @list h h' l items targets placed q hentries ih =>
      obtain ⟨⟨r, hok⟩, hisKeyed, hitem⟩ := hnames
      have herror : placed.error = none := by
        cases herror : placed.error with
        | none => rfl
        | some e =>
            rw [Placed.result, herror] at hok
            cases hok
      exact Nat.lt_of_lt_of_le (ih hs ⟨l, .of_list hst⟩ ⟨herror, hisKeyed, hitem⟩)
        (Heap.size_le_setItems h' l _)

end Enumerated

/-! ### Users of the small schema -/

section Sample

open Introspection (Declaration)

/-- A user that is only told by an id. -/
def sampleUser : Json := .object [("id", .string "A")]

def sampleUsers : Json := .object [("users", .array [sampleUser])]

/-- An enumeration in place of the type `ID`. -/
def sampleEnumId : Declaration := { Declaration.bare .enum "ID" with enumValues := some [⟨"A", none, false⟩] }

/-- The plans of the small schema, with some leaf for ids. -/
structure SamplePlans (plans : Plans) (leaf : Leaf) : Prop where
  query : plans.get? "Query" =
    some ⟨"Query", [⟨"title", "title", .leaf (.scalar (.standard .string)), true, false⟩,
    ⟨"users", "users", .objectList "User" false true, true, false⟩]⟩
  user : plans.get? "User" = some ⟨"User", [⟨"id", "id", .leaf leaf, true, true⟩,
    ⟨"name", "name", .leaf (.scalar (.standard .string)), true, false⟩]⟩
  element : concreteElement plans.graph "User" sampleUser = .ok "User"

namespace SamplePlans

variable {leaf : Leaf}

theorem everywhere {P : String → Json → Prop} (hp : SamplePlans plans leaf) (husers : P "Query" sampleUsers)
    (huser : P "User" sampleUser) : Everywhere plans P "Query" sampleUsers := by
  apply Everywhere.of_fields hp.query husers
  intro field hfield d hget
  rcases List.mem_pair.1 hfield with rfl | rfl
  · cases hget
  · obtain rfl := Option.some.inj hget
    intro item hitem concrete hconcrete
    obtain rfl := List.mem_singleton.1 hitem
    obtain rfl := Except.ok.inj (hp.element.symm.trans hconcrete)
    apply Everywhere.of_fields hp.user huser
    intro field hfield d hget
    rcases List.mem_pair.1 hfield with rfl | rfl
    · trivial
    · cases hget

theorem acceptsId (hp : SamplePlans plans leaf) (haccepts : ∃ v, leaf.convert (.string "A") = .ok v) :
    Everywhere plans (AcceptsId plans) "Query" sampleUsers := by
  refine SamplePlans.everywhere hp ?_ ?_
  · intro plan field leaf d hplan hfield hname
    obtain rfl := Option.some.inj (hp.query.symm.trans hplan)
    rcases List.mem_pair.1 hfield with rfl | rfl <;> exact absurd hname (by decide)
  · intro plan field leaf d hplan hfield hname hkind hget
    obtain rfl := Option.some.inj (hp.user.symm.trans hplan)
    rcases List.mem_pair.1 hfield with rfl | rfl
    · cases hkind
      cases hget
      exact .inr haccepts
    · exact absurd hname (by decide)

theorem distinctIds (hp : SamplePlans plans leaf) :
    Everywhere plans (DistinctIds plans) "Query" sampleUsers := by
  refine SamplePlans.everywhere hp ?_ ?_
  · rintro items ⟨plan, field, d, element, hplan, hfield, hget, hdemand⟩
    obtain rfl := Option.some.inj (hp.query.symm.trans hplan)
    rcases List.mem_pair.1 hfield with rfl | rfl
    · cases hget
    · cases hget
      cases hdemand
      exact List.nodup_singleton "A"
  · rintro items ⟨plan, field, d, element, hplan, hfield, hget, hdemand⟩
    obtain rfl := Option.some.inj (hp.user.symm.trans hplan)
    rcases List.mem_pair.1 hfield with rfl | rfl
    · cases hdemand
    · cases hget

end SamplePlans

end Sample

/-! ### Writing again -/

/-- **Patching again.** When data was written into an object of a reached heap, and the ids in it are
accepted and in keyed lists different, writing it once more changes nothing, notes nothing and leaves the
whole heap as it is, exactly if the type `ID` is no enumeration or no entry of a keyed list has an id. -/
theorem patch_again_quiet_iff {schema : Introspection.Schema} {graph : TypeGraph} {scalars : Registry}
    (hgraph : TypeGraph.build schema = .ok graph) (hplans : Plans.build graph scalars = .ok plans)
    (hscalar : scalars.find? "ID" = some (.standard .id)) {h h' : Heap} {o : ObjectId} {data : Json}
    {changes : List String} {q : List Notification} (hreached : Reached plans h) (ho : h.HasObject o)
    (hrun : outcome (patch plans data o) h = (.ok changes, h', q))
    (haccepts : Everywhere plans (AcceptsId plans) (h.object o).typeName data)
    (hdistinct : Everywhere plans (DistinctIds plans) (h.object o).typeName data) :
    outcome (patch plans data o) h' = (.ok [], h', []) ↔
      ¬graph.HasEnumId ∨ Everywhere plans (NoIds plans) (h.object o).typeName data := by
  have hd : plans.Distinct := Plans.distinct_of_build hgraph hplans
  have hs := hreached.sound hd
  have hfirst := writes_patch plans o data h
  rw [hrun] at hfirst
  have hs' := (hfirst.sound_meets hd hs ho).1
  have ho' := hfirst.evolves.objects ho
  have hsecond := writes_patch plans o data h'
  constructor
  · intro hquiet
    by_contra hnot
    rw [not_or, Classical.not_not] at hnot
    obtain ⟨henum, hids⟩ := hnot
    have hnamed : Named plans (h'.object o).typeName data := by
      rw [hfirst.evolves.typeName ho]
      by_contra hnone
      apply hids
      intro inner e hinside items hkeyed item hitem
      by_contra hwire
      exact hnone ⟨inner, e, items, item, hinside, hkeyed, hitem, hwire⟩
    rw [hquiet] at hsecond
    exact Nat.lt_irrefl _ (hsecond.grows hgraph hplans henum hs' ho' ⟨⟨[], rfl⟩, hnamed⟩)
  · intro hids
    have hmerge : merge plans data (h.snapshot o) = .ok (h'.snapshot o) := hfirst.merges hd hs ho
    have htype : (h.snapshot o).typeName? = some (h.object o).typeName := by rw [hs.tidy.snapshot_eq ho]; rfl
    have hsettled := merge_settled hgraph hplans hscalar data htype hmerge haccepts hdistinct hids
    obtain ⟨hheap, hnoted, hresult⟩ := hsecond.quiet hd hs' ho' hsettled
    unfold Goal.TellsNothing at hresult
    exact Prod.ext hresult (Prod.ext hheap hnoted)

/-- No type is called `ID` in the small schema, so that it is filed as a scalar. -/
theorem not_hasEnumId_sampleGraph : ¬(sampleGraph []).HasEnumId := by
  rintro ⟨t, ht, hkind⟩
  cases ht
  cases hkind

theorem patch_sample_again_quiet :
    outcome (patch (samplePlans []) sampleUsers ⟨0⟩)
        (outcome (patch (samplePlans []) sampleUsers ⟨0⟩) sampleHeap).2.1 =
      (.ok [], (outcome (patch (samplePlans []) sampleUsers ⟨0⟩) sampleHeap).2.1, []) := by
  have hrun : (outcome (patch (samplePlans []) sampleUsers ⟨0⟩) sampleHeap).1 =
      .ok ["users"] := by decide +kernel
  have hplans : SamplePlans (samplePlans []) (.scalar (.standard .id)) := ⟨rfl, rfl, rfl⟩
  exact (patch_again_quiet_iff build_sampleSchema build_samplePlans rfl
    (reached_sampleHeap _) hasObject_sampleHeap
    (Prod.ext hrun rfl) (hplans.acceptsId ⟨.string "A", rfl⟩) hplans.distinctIds).2
      (.inl not_hasEnumId_sampleGraph)

/-- Ids of an enumeration are told apart in data but not in objects: the user is made once more. -/
theorem not_patch_again_quiet :
    ¬∀ {schema : Introspection.Schema} {graph : TypeGraph} {scalars : Registry} {plans : Plans} {h h' : Heap}
      {o : ObjectId} {data : Json} {changes : List String} {q : List Notification},
      TypeGraph.build schema = .ok graph → Plans.build graph scalars = .ok plans →
      scalars.find? "ID" = some (.standard .id) → Reached plans h → h.HasObject o →
      outcome (patch plans data o) h = (.ok changes, h', q) →
      Everywhere plans (AcceptsId plans) (h.object o).typeName data →
      Everywhere plans (DistinctIds plans) (h.object o).typeName data →
        outcome (patch plans data o) h' = (.ok [], h', []) := by
  intro hquiet
  have hgraph : TypeGraph.build (sampleSchema [sampleEnumId]) = .ok (sampleGraph [sampleEnumId]) := rfl
  have hbuild : Plans.build (sampleGraph [sampleEnumId]) .standard = .ok (samplePlans [sampleEnumId]) := rfl
  have hplans : SamplePlans (samplePlans [sampleEnumId]) (.enum "ID" ["A"]) := ⟨rfl, rfl, rfl⟩
  have hrun : (outcome (patch (samplePlans [sampleEnumId]) sampleUsers ⟨0⟩) sampleHeap).1 =
      .ok ["users"] := by
    decide +kernel
  have hagain := hquiet hgraph hbuild rfl (reached_sampleHeap _) hasObject_sampleHeap (Prod.ext hrun rfl)
    (hplans.acceptsId ⟨.enum "A", rfl⟩) hplans.distinctIds
  have htold : (outcome (patch (samplePlans [sampleEnumId]) sampleUsers ⟨0⟩)
      (outcome (patch (samplePlans [sampleEnumId]) sampleUsers ⟨0⟩) sampleHeap).2.1).2.2 ≠ [] := by
    decide +kernel
  exact htold (congrArg (·.2.2) hagain)

end GraphClient.Live
