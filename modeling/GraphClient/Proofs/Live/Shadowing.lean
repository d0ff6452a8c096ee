import GraphClient.Proofs.Live.Conformance
import GraphClient.Proofs.Live.Matching
import GraphClient.Proofs.Live.Refusal

/-! Elements that hide others. Ids tell objects of one type apart, but the elements of a keyed list may be of
several types, and the list knows them by their ids alone: only the first element with an id is found, and
only by the first entry with it. So an element of another type hides those behind it, which are dropped and
made anew although the data has them (`reconcile_keeps_iff`). -/

namespace GraphClient.Live

variable {plans : Plans}

/-- That an entry has the type and the id of an element. -/
def Heap.Agrees (graph : TypeGraph) (h : Heap) (list : ObjectList) (data : Json) (x : ObjectId) : Prop :=
  (∃ id, wireId? data = some id ∧ (h.object x).id? = some id) ∧
    concreteElement graph list.elementType data = .ok (h.object x).typeName

/-- That a list has kept all elements which the data still has, each at the index of its entry, and that
the same data once more would insert, remove and move nothing. -/
structure Heap.KeepsPresent (plans : Plans) (h h' : Heap) (l : ListId) (items : List Json)
    (r : Reconciliation) : Prop where
  kept : ∀ (i : Nat) (data : Json) (x : ObjectId), items[i]? = some data → x ∈ (h.list l).items →
    h.Agrees plans.graph (h.list l) data x → (h'.list l).items[i]? = some x ∧ i ∉ r.inserted ∧
      ∀ j, (h.list l).items[j]? = some x → j ∉ r.removed
  again : ∃ r' h'' q, outcome (reconcile plans l items) h' = (.ok r', h'', q) ∧ r'.isUnchanged = true

/-- That no entry hides another one, and no element one that the data still has. -/
structure Heap.Unshadowed (graph : TypeGraph) (h : Heap) (list : ObjectList) (items : List Json) : Prop where
  entries : (items.map wireId?).Nodup
  elements : ∀ x ∈ list.items, ∀ data ∈ items, h.Agrees graph list data x →
    list.items.find? (fun y => (h.object y).id? = (h.object x).id?) = some x

/-- Two entries of one id are one entry. -/
theorem eq_of_wireId? {items : List Json} (hnodup : (items.map wireId?).Nodup) {i j : Nat} {data other : Json}
    (hi : items[i]? = some data) (hj : items[j]? = some other)
    (heq : wireId? other = wireId? data) : j = i := by
  have hlt : j < (items.map wireId?).length := by
    rw [List.length_map]
    exact (List.getElem?_eq_some_iff.1 hj).1
  refine (List.getElem?_inj hlt hnodup).1 ?_
  rw [List.getElem?_map, List.getElem?_map, hi, hj, Option.map_some, Option.map_some, heq]

/-- The entry with the type and the id of an element is about it if nothing is hidden. -/
theorem Heap.Unshadowed.claims {graph : TypeGraph} {h : Heap} {list : ObjectList} {items : List Json}
    (hun : h.Unshadowed graph list items) (hkeyed : list.keyed = true) {i : Nat} {data : Json} {x : ObjectId}
    (hdata : items[i]? = some data) (hx : x ∈ list.items) (hagrees : h.Agrees graph list data x) :
    h.Claims graph list items i x := by
  obtain ⟨⟨id, hwire, hid⟩, htype⟩ := hagrees
  have hitem := hun.elements x hx data (List.mem_of_getElem? hdata) ⟨⟨id, hwire, hid⟩, htype⟩
  refine .id hkeyed hdata hwire (fun j hj d hd hwire' => ?_) (hid ▸ hitem) htype
  exact Nat.ne_of_lt hj (eq_of_wireId? hun.entries hdata hd (hwire'.trans hwire.symm))

/-- An entry with an id that is about an element is the first one with its id, and so is the element. -/
theorem Heap.Claims.first {graph : TypeGraph} {h : Heap} {list : ObjectList} {items : List Json} {i : Nat}
    {x : ObjectId} (hclaims : h.Claims graph list items i x) (hkeyed : list.keyed = true) {data : Json}
    {id : String} (hdata : items[i]? = some data) (hwire : wireId? data = some id) :
    (∀ j < i, ∀ d, items[j]? = some d → wireId? d ≠ some id) ∧
      list.items.find? (fun y => (h.object y).id? = some id) = some x := by
  cases hclaims with
  | id _ hdata' hwire' hfirst hitem _ =>
      obtain rfl := Option.some.inj (hdata.symm.trans hdata')
      obtain rfl := Option.some.inj (hwire.symm.trans hwire')
      exact ⟨hfirst, hitem⟩
  | blank _ hdata' hwire' _ _ _ =>
      obtain rfl := Option.some.inj (hdata.symm.trans hdata')
      rw [hwire] at hwire'
      cases hwire'
  | position hpositional _ _ _ =>
      rw [hkeyed] at hpositional
      cases hpositional

/-- Where the contents are the same nothing is told to be reordered. -/
theorem Writes.isUnchanged_of_list {h h' : Heap} {l : ListId} {items : List Json} {r : Reconciliation}
    {q : List Notification} (hw : Writes plans h (.list l items (.ok r)) h' q)
    (ht : h.Tidy) (hl : h.HasList l)
    (hsame : (h'.list l).items = (h.list l).items) : r.isUnchanged = true := by
  obtain ⟨hinserted, hremoved, hmoved⟩ := hw.reordering_of_list ht hl
  rw [hsame, reorder_self ht.nodup] at hinserted hremoved hmoved
  rw [Reconciliation.isUnchanged, hinserted, hremoved, hmoved]
  rfl

/-- What was written into a list once can be written into it again. -/
theorem Writes.list_again (hd : plans.Distinct) {h h' h'' : Heap} {l : ListId} {items : List Json}
    {r : Reconciliation} {result : Except PatchError Reconciliation} {q q' : List Notification}
    (hw : Writes plans h (.list l items (.ok r)) h' q) (hw' : Writes plans h' (.list l items result) h'' q')
    (hs : h.Sound plans) (hl : h.HasList l) : ∃ r', result = .ok r' := by
  have hs' := (hw.sound_meets hd hs hl).1
  have hmerges := hw.merges hd hs hl
  have hmerges' := hw'.merges hd hs' (hw.evolves.lists hl)
  obtain ⟨helement, hkeyed⟩ := hw.evolves.listType hl
  rw [Goal.Merges] at hmerges hmerges'
  rw [helement, hkeyed] at hmerges'
  have hitems : ∀ item ∈ items, MergesAlike plans item := fun item _ => merges_alike plans item
  have halike := mergeEntries_alike hitems (h.list l).elementType (h.list l).keyed
    ((h.list l).items.map h.snapshot) ((h'.list l).items.map h'.snapshot) 0 []
  rw [hmerges, hmerges'] at halike
  exact halike.of_map.ok_iff.1 ⟨r, rfl⟩

/-- That a list has for every entry an element of its type and its id, and no others. -/
structure Heap.Holds (graph : TypeGraph) (h : Heap) (list : ObjectList) (items : List Json) : Prop where
  length : list.items.length = items.length
  agrees : ∀ {i : Nat} {x : ObjectId}, list.items[i]? = some x → ∃ data, items[i]? = some data ∧
    h.Agrees graph list data x

/-- Elements that are those of entries with different ids are not hidden. -/
theorem Heap.Holds.unshadowed {graph : TypeGraph} {h : Heap} {list : ObjectList} {items : List Json}
    (hholds : h.Holds graph list items) (hnodup : (items.map wireId?).Nodup) :
    h.Unshadowed graph list items := by
  refine ⟨hnodup, fun x hx _ _ _ => ?_⟩
  obtain ⟨i, hi, hitem⟩ := List.getElem_of_mem hx
  obtain ⟨data, hdata, ⟨id, hwire, hid⟩, -⟩ := hholds.agrees (List.getElem?_eq_some_iff.2 ⟨hi, hitem⟩)
  rw [List.find?_eq_some_iff_getElem]
  refine ⟨decide_eq_true rfl, i, hi, hitem, fun j hj => ?_⟩
  obtain ⟨d, hd, ⟨id', hwire', hid'⟩, -⟩ := hholds.agrees (List.getElem?_eq_getElem (Nat.lt_trans hj hi))
  rw [hid, hid', Bool.not_eq_true', decide_eq_false_iff_not]
  intro heq
  exact Nat.ne_of_lt hj (eq_of_wireId? hnodup hdata hd (hwire'.trans (heq.trans hwire.symm)))

/-- What holds the elements for entries with different ids holds the same ones when it is made that again. -/
theorem Heap.Matched.eq_of_holds {graph : TypeGraph} {h h' : Heap} {l : ListId} {items : List Json}
    {r : Reconciliation} (hmatched : h.Matched graph h' l items r) (hholds : h.Holds graph (h.list l) items)
    (hkeyed : (h.list l).keyed = true) (hnodup : (items.map wireId?).Nodup) :
    (h'.list l).items = (h.list l).items := by
  refine List.ext_getElem? fun i => ?_
  cases hx : (h.list l).items[i]? with
  | none =>
      rw [List.getElem?_eq_none_iff, hholds.length, ← hmatched.length] at hx
      exact List.getElem?_eq_none hx
  | some x =>
      obtain ⟨data, hdata, hagrees⟩ := hholds.agrees hx
      exact hmatched.claimed i x
        ((hholds.unshadowed hnodup).claims hkeyed hdata (List.mem_of_getElem? hx) hagrees)

/-- **Lists that hide nothing.** What has kept all elements that the data still has, and is not changed by
the same data again, had no element and no entry that hid another one. -/
theorem Heap.KeepsPresent.unshadowed {h h' : Heap} {l : ListId} {items : List Json} {r : Reconciliation}
    (hkeeps : h.KeepsPresent plans h' l items r) (hd : plans.Distinct)
    (hmatched : h.Matched plans.graph h' l items r) (hs' : h'.Sound plans) (hl' : h'.HasList l)
    (hkeyed : (h.list l).keyed = true) (hkeyed' : (h'.list l).keyed = true)
    (hids : ∀ data ∈ items, wireId? data ≠ none) : h.Unshadowed plans.graph (h.list l) items := by
  obtain ⟨hkept, r', h'', q, hagain, hunchanged⟩ := hkeeps
  constructor
  · have hw' := writes_reconcile plans l items h'
    rw [hagain] at hw'
    have hmatched' := hw'.matched hd hs' hl'
    -- the later one of two entries with one id would get a new element again
    refine List.pairwise_iff_getElem.2 fun i j hi hj hlt heq => ?_
    rw [List.length_map] at hi hj
    rw [List.getElem_map, List.getElem_map] at heq
    obtain ⟨id, hwire⟩ := Option.ne_none_iff_exists'.1 (hids _ (List.getElem_mem hj))
    obtain ⟨x, hx⟩ : ∃ x, (h''.list l).items[j]? = some x :=
      ⟨_, List.getElem?_eq_getElem (hmatched'.length ▸ hj)⟩
    have hnot : ¬h'.Claims plans.graph (h'.list l) items j x := fun hclaims =>
      (hclaims.first hkeyed' (List.getElem?_eq_getElem hj) hwire).1 i hlt _ (List.getElem?_eq_getElem hi)
        (heq.trans hwire)
    have hinserted := (hmatched'.inserted.2 j).2 ⟨_, hx, (hmatched'.fresh j _ hx hnot).2⟩
    rw [Reconciliation.isUnchanged, Bool.and_eq_true, Bool.and_eq_true, List.isEmpty_iff] at hunchanged
    rw [hunchanged.1.1] at hinserted
    cases hinserted
  · intro x hx data hdata hagrees
    obtain ⟨i, hi⟩ := List.mem_iff_getElem?.1 hdata
    have hclaims : h.Claims plans.graph (h.list l) items i x := by
      by_contra hnot
      exact (hmatched.fresh i x (hkept i data x hi hx hagrees).1 hnot).2 hx
    obtain ⟨⟨id, hwire, hid⟩, -⟩ := hagrees
    rw [hid]
    exact (hclaims.first hkeyed hi hwire).2

section Built

variable {schema : Introspection.Schema} {graph : TypeGraph} {scalars : Registry} {h h' : Heap} {l : ListId}
  {items : List Json} {r : Reconciliation} {q : List Notification}

/-- After a list was made what entries say, all of which have ids, it has elements of these ids. -/
theorem Writes.holds (hgraph : TypeGraph.build schema = .ok graph)
    (hplans : Plans.build graph scalars = .ok plans)
    (hid : leafOf? graph scalars "ID" = some (.scalar (.standard .id)))
    (hw : Writes plans h (.list l items (.ok r)) h' q) (hs : h.Sound plans) (hl : h.HasList l)
    (hkeyed : graph.isKeyed (h.list l).elementType = true) (hids : ∀ data ∈ items, wireId? data ≠ none) :
    h'.Holds plans.graph (h'.list l) items := by
  have hmatched := hw.matched (Plans.distinct_of_build hgraph hplans) hs hl
  refine ⟨hmatched.length, fun {i x} hx => ?_⟩
  have hi : i < items.length := hmatched.length ▸ (List.getElem?_eq_some_iff.1 hx).1
  have hdata := List.getElem?_eq_getElem hi
  obtain ⟨id, hwire⟩ := Option.ne_none_iff_exists'.1 (hids _ (List.getElem_mem hi))
  obtain ⟨y, hy, htype⟩ := hmatched.type i _ hdata
  obtain rfl := Option.some.inj (hx.symm.trans hy)
  refine ⟨_, hdata, ⟨id, hwire, hw.id?_of_entry hgraph hplans hid hs hl hkeyed hdata hwire hx⟩, ?_⟩
  rw [(hw.evolves.listType hl).1]
  exact htype

/-- **Elements that are not hidden stay.** -/
theorem Heap.Unshadowed.keepsPresent (hun : h.Unshadowed plans.graph (h.list l) items)
    (hgraph : TypeGraph.build schema = .ok graph) (hplans : Plans.build graph scalars = .ok plans)
    (hid : leafOf? graph scalars "ID" = some (.scalar (.standard .id)))
    (hw : Writes plans h (.list l items (.ok r)) h' q) (hs : h.Sound plans) (hl : h.HasList l)
    (hkeyed : (h.list l).keyed = true) (hisKeyed : graph.isKeyed (h.list l).elementType = true)
    (hids : ∀ data ∈ items, wireId? data ≠ none) : h.KeepsPresent plans h' l items r := by
  have hd : plans.Distinct := Plans.distinct_of_build hgraph hplans
  obtain ⟨hs', -⟩ := hw.sound_meets hd hs hl
  have hl' := hw.evolves.lists hl
  have hmatched := hw.matched hd hs hl
  constructor
  · intro i data x hdata hx hagrees
    have hnew := hmatched.claimed i x (hun.claims hkeyed hdata hx hagrees)
    refine ⟨hnew, fun hi => ?_, fun j hj hremoved => ?_⟩
    · obtain ⟨y, hy, hnot⟩ := (hmatched.inserted.2 i).1 hi
      obtain rfl := Option.some.inj (hnew.symm.trans hy)
      exact hnot hx
    · obtain ⟨y, hy, hnot⟩ := (hmatched.removed.2 j).1 hremoved
      obtain rfl := Option.some.inj (hj.symm.trans hy)
      exact hnot (List.mem_of_getElem? hnew)
  · obtain ⟨result, h'', q', hagain⟩ :
        ∃ result h'' q', outcome (reconcile plans l items) h' = (result, h'', q') := ⟨_, _, _, rfl⟩
    have hw' := writes_reconcile plans l items h'
    rw [hagain] at hw'
    obtain ⟨r', rfl⟩ := hw.list_again hd hw' hs hl
    have hkeyed' := (hw.evolves.listType hl).2.trans hkeyed
    have hsame := (hw'.matched hd hs' hl').eq_of_holds
      (hw.holds hgraph hplans hid hs hl hisKeyed hids) hkeyed'
      hun.entries
    exact ⟨r', h'', q', hagain, hw'.isUnchanged_of_list hs'.tidy hl' hsame⟩

/-- **Elements are kept exactly if none is hidden.** When a keyed list of a reached heap is made what entries
say, all of which have ids, it keeps the elements that the data still has, and the same data changes
nothing afterwards, exactly if no two entries have one id and every element that the data still has is the
first one with its id. -/
theorem reconcile_keeps_iff (hgraph : TypeGraph.build schema = .ok graph)
    (hplans : Plans.build graph scalars = .ok plans)
    (hid : leafOf? graph scalars "ID" = some (.scalar (.standard .id))) (hreached : Reached plans h)
    (hl : h.HasList l) (hkeyed : (h.list l).keyed = true) (hids : ∀ data ∈ items, wireId? data ≠ none)
    (hrun : outcome (reconcile plans l items) h = (.ok r, h', q)) :
    h.KeepsPresent plans h' l items r ↔ h.Unshadowed graph (h.list l) items := by
  have hd : plans.Distinct := Plans.distinct_of_build hgraph hplans
  have hs := hreached.sound hd
  have hw := writes_reconcile plans l items h
  rw [hrun] at hw
  rw [← Plans.graph_of_build hplans]
  constructor
  · intro hkeeps
    exact hkeeps.unshadowed hd (hw.matched hd hs hl) (hw.sound_meets hd hs hl).1 (hw.evolves.lists hl) hkeyed
      ((hw.evolves.listType hl).2.trans hkeyed) hids
  · intro hun
    have hisKeyed : graph.isKeyed (h.list l).elementType = true := by
      rw [← Plans.graph_of_build hplans, ← (hreached.keyed (Plans.keyed hplans)).keyed hl]
      exact hkeyed
    exact hun.keepsPresent hgraph hplans hid hw hs hl hkeyed hisKeyed hids

end Built

section Sample

/-- An item of the feed that is told by its type and its id. -/
def feedItem (typeName id : String) : Json := .object [("__typename", .string typeName), ("id", .string id)]

/-- A feed of a post and of a user behind it. -/
def feedHeap (postId userId : String) : Heap :=
  (outcome (patch feedPlans (feedData [feedItem "Post" postId, feedItem "User" userId]) ⟨0⟩) sampleHeap).2.1

theorem reached_feedHeap (postId userId : String) : Reached feedPlans (feedHeap postId userId) :=
  .patch _ (reached_sampleHeap _) hasObject_sampleHeap

theorem leafOf?_feedGraph : leafOf? feedGraph .standard "ID" = some (.scalar (.standard .id)) := rfl

/-- Two items with different ids stay when they change their places. -/
theorem reconcile_keeps_feed :
    ∃ r h' q, outcome (reconcile feedPlans ⟨0⟩ [feedItem "User" "b", feedItem "Post" "a"])
      (feedHeap "a" "b") =
        (.ok r, h', q) ∧
      (feedHeap "a" "b").KeepsPresent feedPlans h' ⟨0⟩ [feedItem "User" "b", feedItem "Post" "a"] r ∧
      (h'.list ⟨0⟩).items = [⟨2⟩, ⟨1⟩] := by
  have hok : (outcome (reconcile feedPlans ⟨0⟩ [feedItem "User" "b", feedItem "Post" "a"])
      (feedHeap "a" "b")).1 = .ok ⟨[], [], [(1, 0)], []⟩ := by decide +kernel
  have hitems : ((outcome (reconcile feedPlans ⟨0⟩ [feedItem "User" "b", feedItem "Post" "a"])
      (feedHeap "a" "b")).2.1.list ⟨0⟩).items = [⟨2⟩, ⟨1⟩] := by decide +kernel
  have hl : (feedHeap "a" "b").HasList ⟨0⟩ := by
    unfold Heap.HasList
    decide +kernel
  have hkeyed : ((feedHeap "a" "b").list ⟨0⟩).keyed = true := by decide +kernel
  have hids : ∀ data ∈ [feedItem "User" "b", feedItem "Post" "a"], wireId? data ≠ none := by decide +kernel
  have hfirst : ∀ x ∈ ((feedHeap "a" "b").list ⟨0⟩).items, ((feedHeap "a" "b").list ⟨0⟩).items.find? (fun y =>
      ((feedHeap "a" "b").object y).id? = ((feedHeap "a" "b").object x).id?) = some x := by decide +kernel
  have hkeeps :=
    (reconcile_keeps_iff build_feedSchema build_feedPlans leafOf?_feedGraph (reached_feedHeap "a" "b")
    hl hkeyed hids (Prod.ext hok rfl)).2 ⟨by decide +kernel, fun x hx _ _ _ => hfirst x hx⟩
  exact ⟨_, _, _, Prod.ext hok rfl, hkeeps, hitems⟩

/-- A user behind a post with the same id is dropped and made anew, although the data still has it. -/
theorem not_reconcile_keeps :
    ¬∀ {schema : Introspection.Schema} {graph : TypeGraph} {scalars : Registry} {plans : Plans} {h h' : Heap}
      {l : ListId} {items : List Json} {r : Reconciliation} {q : List Notification},
      TypeGraph.build schema = .ok graph → Plans.build graph scalars = .ok plans →
      leafOf? graph scalars "ID" = some (.scalar (.standard .id)) → Reached plans h → h.HasList l →
      (h.list l).keyed = true → graph.IsAbstract (h.list l).elementType →
      ((h.list l).items.map fun x => ((h.object x).typeName, (h.object x).id?)).Nodup →
      (∀ data ∈ items, wireId? data ≠ none) →
      (items.map fun data => (data.get? typeNameField, wireId? data)).Nodup →
      outcome (reconcile plans l items) h = (.ok r, h', q) → h.KeepsPresent plans h' l items r := by
  intro hkeeps
  have hl : (feedHeap "a" "a").HasList ⟨0⟩ := by
    unfold Heap.HasList
    decide +kernel
  have hkeyed : ((feedHeap "a" "a").list ⟨0⟩).keyed = true := by decide +kernel
  have helement : ((feedHeap "a" "a").list ⟨0⟩).elementType = "Node" := by decide +kernel
  have hnodup : (((feedHeap "a" "a").list ⟨0⟩).items.map fun x =>
      (((feedHeap "a" "a").object x).typeName, ((feedHeap "a" "a").object x).id?)).Nodup := by decide +kernel
  have hids : ∀ data ∈ [feedItem "User" "a"], wireId? data ≠ none := by decide +kernel
  have hok : (outcome (reconcile feedPlans ⟨0⟩ [feedItem "User" "a"]) (feedHeap "a" "a")).1 =
      .ok ⟨[0], [0, 1], [], []⟩ := by decide +kernel
  obtain ⟨hkept, -⟩ := hkeeps build_feedSchema build_feedPlans leafOf?_feedGraph (reached_feedHeap "a" "a") hl
    hkeyed (helement ▸ ⟨_, rfl, rfl⟩) hnodup hids (List.nodup_singleton _) (Prod.ext hok rfl)
  have huser : (⟨2⟩ : ObjectId) ∈ ((feedHeap "a" "a").list ⟨0⟩).items := by decide +kernel
  have hagrees : (feedHeap "a" "a").Agrees feedPlans.graph ((feedHeap "a" "a").list ⟨0⟩)
      (feedItem "User" "a") ⟨2⟩ :=
    ⟨⟨"a", by decide +kernel, by decide +kernel⟩, by decide +kernel⟩
  obtain ⟨-, hinserted, -⟩ := hkept 0 (feedItem "User" "a") ⟨2⟩ rfl huser hagrees
  exact hinserted List.mem_cons_self

end Sample

end GraphClient.Live
