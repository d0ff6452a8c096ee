import GraphClient.Proofs.Live.Matching

/-! Lists in which an entry fails. The entries before it are written as they would be without it and those
behind it, so the elements for them are known (`Heap.Matched`); all other old elements stay behind these.
Since no old element goes, a failing list tells of none that does. -/

namespace GraphClient.Live

variable {plans : Plans}

/-- What has become of a list in which an entry failed; `before` is the heap that the entries before it
alone lead to. -/
structure Heap.Survives (h before h' : Heap) (l : ListId) (q : List Notification) : Prop where
  /-- First come the elements for the entries before, then all other old ones in their old order. -/
  contents : (h'.list l).items =
    (before.list l).items ++ (h.list l).items.filter fun x => x ∉ (before.list l).items
  /-- Every old element is there once, and is still owned by the list. -/
  once : ∀ x ∈ (h.list l).items, (h'.list l).items.count x = 1 ∧ (h'.object x).owner = some l
  /-- What was made for the entry that failed is not among the elements. -/
  made : ∀ x ∈ (h'.list l).items, before.HasObject x
  /-- What is told about the list leads from the old contents to the new ones. -/
  replay : ListChange.replay? (h.list l).items (ownChanges l q).flatten = some (h'.list l).items
  /-- No element is told to be removed. -/
  keeps : ∀ c ∈ (ownChanges l q).flatten, ∀ index item, c ≠ .removed index item

section Entries

variable {h h' : Heap} {list : ObjectList} {position : Nat} {byId : List (String × ObjectId)}
  {rest : List Json} {targets : List ObjectId} {placed : Placed} {q : List Notification} {e : PatchError}

/-- The entries before the one that fails can be written alone, and then place the same elements. -/
theorem Writes.entries_before (hw : Writes plans h (.entries list position byId rest targets placed) h' q)
    (herror : placed.error = some e) : ∃ before targets' q', Writes plans h
      (.entries list position byId (rest.take placed.items.length) targets' ⟨placed.items,
        placed.changed, none⟩)
      before q' := by
  induction rest generalizing h position byId targets placed q with
  | nil =>
      cases hw with
      | halt hhalt =>
          cases hhalt
          cases herror
  | cons data rest ih =>
      cases hw with
      | halt hhalt =>
          cases hhalt
          exact ⟨_, [], [], .halt .noEntry⟩
      | stopEntry => exact ⟨_, [], [], .halt .noEntry⟩
      | nextEntry hconcrete hentry hrest =>
          obtain ⟨before, targets', q', hbefore⟩ := ih hrest herror
          exact ⟨before, _, _, .nextEntry hconcrete hentry hbefore⟩

/-- The entries behind the one that fails do not matter. -/
theorem Writes.entries_until (hw : Writes plans h (.entries list position byId rest targets placed) h' q)
    (herror : placed.error = some e) :
    Writes plans h (.entries list position byId
      (rest.take (placed.items.length + 1)) targets placed) h' q := by
  induction rest generalizing h position byId targets placed q with
  | nil =>
      cases hw with
      | halt hhalt =>
          cases hhalt
          cases herror
  | cons data rest ih =>
      cases hw with
      | halt hhalt =>
          cases hhalt with
          | refusedEntry hconcrete => exact .halt (.refusedEntry hconcrete)
      | stopEntry hconcrete hentry => exact .stopEntry hconcrete hentry
      | nextEntry hconcrete hentry hrest => exact .nextEntry hconcrete hentry (ih hrest herror)

end Entries

theorem Placed.result_eq_error {placed : Placed} {old : List ObjectId} {order : Reordering ObjectId}
    {e : PatchError} (h : placed.result old order = .error e) : placed.error = some e ∧
      placed.contents old = placed.items ++ old.filter fun x => x ∉ placed.items := by
  cases herror : placed.error with
  | none =>
      rw [Placed.result, herror] at h
      cases h
  | some e' =>
      rw [Placed.result, herror] at h
      cases h
      exact ⟨rfl, by rw [Placed.contents, herror]⟩

/-- Entries that are all written make a list of their elements. -/
theorem Writes.list_of_placed {h h₁ : Heap} {l : ListId} {items : List Json} {targets : List ObjectId}
    {placed : Placed} {q : List Notification}
    (hw : Writes plans h (.entries (h.list l) 0 (elementIds h (h.list l)) items targets placed) h₁ q)
    (herror : placed.error = none) :
    ∃ r q', Writes plans h (.list l items (.ok r)) (h₁.setItems l placed.items).2 q' := by
  have hlist := Writes.list hw
  have hcontents : placed.contents (h.list l).items = placed.items := by rw [Placed.contents, herror]
  rw [Placed.result, herror, hcontents] at hlist
  exact ⟨_, _, hlist⟩

/-- Where all old items stay, none is removed. -/
theorem ne_removed_of_reorder {α : Type} [DecidableEq α] {old new : List α}
    (hold : old.Nodup) (hnew : new.Nodup)
    (hall : ∀ x ∈ old, x ∈ new) : ∀ c ∈ (reorder old new).changes, ∀ index item, c ≠ .removed index item := by
  have hnone : removedOf old new = [] := by
    refine List.eq_nil_iff_forall_not_mem.2 fun i hi => ?_
    obtain ⟨x, hx, hnot⟩ := (mem_removedOf_iff hold hnew).1 hi
    exact hnot (hall x (List.mem_of_getElem? hx))
  obtain ⟨moves, hmoves, -⟩ := movesFrom_eq_map (without old (removedOf old new)) none (marked old new)
  intro c hc index item
  rw [reorder_eq, hmoves, hnone, insertions_eq_map] at hc
  rcases List.mem_append.1 hc with hc | hc
  · obtain ⟨_, -, rfl⟩ := List.mem_map.1 hc
    nofun
  · obtain ⟨_, -, rfl⟩ := List.mem_map.1 hc
    nofun

/-- What is told about a list that is made what entries say is its reordering. -/
theorem Writes.ownChanges_of_list (hd : plans.Distinct) {h h₁ : Heap} {l : ListId} {items : List Json}
    {targets : List ObjectId} {placed : Placed} {q : List Notification}
    (hw : Writes plans h (.entries (h.list l) 0 (elementIds h (h.list l)) items targets placed) h₁ q)
    (hs : h.Sound plans) (hl : h.HasList l) (contents : List ObjectId) :
    (ownChanges l (q ++ notedOrder l (h₁.setItems l contents).1)).flatten =
      (reorder (h.list l).items contents).changes := by
  have hsame := hw.list_of_entries hs.tidy hl
  have hquiet : ownChanges l q = [] := by
    rcases (hw.tells_reports hd hs ⟨l, .of_list hl⟩).1.list l with ⟨-, hnone⟩ | ⟨hne, -⟩
    · exact hnone
    · exact absurd (congrArg ObjectList.items hsame) hne
  have horder : (h₁.setItems l contents).1 = reorder (h.list l).items contents := by
    change reorder (h₁.list l).items contents = _
    rw [hsame]
  rw [ownChanges, List.filterMap_append, ← ownChanges, hquiet, List.nil_append, notedOrder, horder]
  split
  · rename_i hempty
    rw [List.isEmpty_iff.1 hempty]
    rfl
  · simp [Notification.changesOf?]

/-- A list in which an entry fails has the elements for the entries before it, and all that it had. -/
theorem Writes.survives (hd : plans.Distinct) {h h' : Heap} {l : ListId} {items : List Json}
    {e : PatchError} {q : List Notification} (hw : Writes plans h (.list l items (.error e)) h' q)
    (hs : h.Sound plans) (hl : h.HasList l) :
    ∃ k < items.length, ∃ r before q' after q'', Writes plans h (.list l (items.take k) (.ok r)) before q' ∧
      Writes plans h (.list l (items.take (k + 1)) (.error e)) after q'' ∧ h.Survives before h' l q := by
  have ht' := (hw.sound_meets hd hs hl).1.tidy
  obtain ⟨targets, placed, h₁, q₁, hentries, hresult, rfl, rfl⟩ := hw.entries_of_list
  obtain ⟨herror, hcontents⟩ := Placed.result_eq_error hresult.symm
  obtain ⟨h₀, targets', q', hbefore⟩ := hentries.entries_before herror
  have huntil := Writes.list (hentries.entries_until herror)
  rw [← hresult] at huntil
  have hitems : ((h₁.setItems l (placed.contents (h.list l).items)).2.list l).items =
      placed.contents (h.list l).items := by rw [Heap.list_setItems, if_pos rfl]
  have hnodup : (placed.contents (h.list l).items).Nodup := hitems ▸ ht'.nodup
  have hall : ∀ x ∈ (h.list l).items, x ∈ placed.contents (h.list l).items := by
    intro x hx
    rw [hcontents, List.mem_append, List.mem_filter]
    by_cases hplaced : x ∈ placed.items
    · exact .inl hplaced
    · exact .inr ⟨hx, by simpa using hplaced⟩
  obtain ⟨r, q₀, hwrites⟩ := hbefore.list_of_placed rfl
  have hitems₀ : ((h₀.setItems l placed.items).2.list l).items = placed.items := by
    rw [Heap.list_setItems, if_pos rfl]
  refine ⟨_, hentries.length_placed.2 e herror, r, _, q₀, _, _, hwrites, huntil, ?_⟩
  refine ⟨?_, fun x hx => ⟨?_, ht'.owner ?_⟩, fun x hx => ?_, ?_, ?_⟩
  · rw [hitems, hitems₀, hcontents]
  · rw [hitems]
    exact List.count_eq_one_of_mem hnodup (hall x hx)
  · rw [hitems]
    exact hall x hx
  · rw [hitems, hcontents] at hx
    rcases List.mem_append.1 hx with hx | hx
    · rw [← hitems₀] at hx
      exact (hwrites.sound_meets hd hs hl).1.tidy.item hx
    · exact hwrites.evolves.objects (hs.tidy.item (List.mem_filter.1 hx).1)
  · rw [hentries.ownChanges_of_list hd hs hl, hitems]
    exact (reorder_replays _ _).1
  · rw [hentries.ownChanges_of_list hd hs hl]
    exact ne_removed_of_reorder hs.tidy.nodup hnodup hall

/-- **A list in which an entry fails loses nothing.** If a list of a reached heap is to become what entries
say and this ends with an error, the error is that of an entry: the entries before it alone succeed, and
they and the entry alone end with the same error. The list has the elements that the entries before it
alone give it, and behind them all others that it had, so that nothing has gone. -/
theorem reconcile_survives {schema : Introspection.Schema} {graph : TypeGraph} {scalars : Registry}
    (hgraph : TypeGraph.build schema = .ok graph)
    (hplans : Plans.build graph scalars = .ok plans) {h h' : Heap}
    (hreached : Reached plans h) {l : ListId} (hl : h.HasList l) {items : List Json} {e : PatchError}
    {q : List Notification} (hrun : outcome (reconcile plans l items) h = (.error e, h', q)) :
    ∃ k < items.length, ∃ r before q', outcome (reconcile plans l (items.take k)) h = (.ok r, before, q') ∧
      (outcome (reconcile plans l (items.take (k + 1))) h).1 = .error e ∧
      h.Matched graph before l (items.take k) r ∧ h.Survives before h' l q := by
  have hd : plans.Distinct := Plans.distinct_of_build hgraph hplans
  have hs := hreached.sound hd
  have hw := writes_reconcile plans l items h
  rw [hrun] at hw
  obtain ⟨k, hk, r, before, q', after, q'', hbefore, huntil, hsurvives⟩ := hw.survives hd hs hl
  have hmatched := hbefore.matched hd hs hl
  rw [Plans.graph_of_build hplans] at hmatched
  exact ⟨k, hk, r, before, q', Yields.outcome_eq hbefore.runs,
    congrArg Prod.fst (Yields.outcome_eq huntil.runs), hmatched, hsurvives⟩

section Sample

/-- The second user comes first, then a new one, and then there is no object;
the first user is still there. -/
theorem reconcile_survives_sampleGrove :
    ∃ e h' q, outcome (reconcile (samplePlans []) ⟨0⟩ [userNamed "b", userNamed "c",
      .null]) sampleGrove.heap =
        (.error e, h', q) ∧ (h'.list ⟨0⟩).items = [⟨2⟩, ⟨3⟩, ⟨1⟩] ∧
      ∃ k < 3, ∃ r before q', outcome (reconcile (samplePlans []) ⟨0⟩
          ([userNamed "b", userNamed "c", .null].take k)) sampleGrove.heap = (.ok r, before, q') ∧
        sampleGrove.heap.Survives before h' ⟨0⟩ q := by
  have herror : (outcome (reconcile (samplePlans []) ⟨0⟩ [userNamed "b", userNamed "c", .null])
      sampleGrove.heap).1 = .error (.expectedObject "User") := by decide +kernel
  have hitems : ((outcome (reconcile (samplePlans []) ⟨0⟩ [userNamed "b", userNamed "c", .null])
      sampleGrove.heap).2.1.list ⟨0⟩).items = [⟨2⟩, ⟨3⟩, ⟨1⟩] := by decide +kernel
  have hl : sampleGrove.heap.HasList ⟨0⟩ := by
    unfold Heap.HasList
    decide +kernel
  obtain ⟨k, hk, r, before, q', hbefore, -, -, hsurvives⟩ := reconcile_survives build_sampleSchema
    build_samplePlans reached_sampleGrove hl (Prod.ext herror rfl)
  exact ⟨_, _, _, Prod.ext herror rfl, hitems, k, hk, r, before, q', hbefore, hsurvives⟩

end Sample

end GraphClient.Live
