import GraphClient.Proofs.Live.Increasing
import GraphClient.Proofs.Live.Replay
import Mathlib.Data.List.Sort

/-! A reordering accounts for every position. The items that stay pair old positions with new ones, each of
them once; all other old positions are removed and all other new ones are inserted. Between the removals
and the insertions the list holds just the items that stay, and those that stand still are in the new
order already, since their old positions increase. -/

namespace GraphClient.Live

variable {α : Type}

/-- Whether an item stands before another one in the list that both come from. -/
def Before (a b : α × Nat) : Prop := a.2 < b.2

instance : Std.Antisymm (Before (α := α)) := ⟨fun _ _ h h' => absurd h (Nat.lt_asymm h')⟩

instance : Std.Irrefl (Before (α := α)) := ⟨fun _ => Nat.lt_irrefl _⟩

theorem zipIdx_pairwise (items : List α) : items.zipIdx.Pairwise Before := by
  have h : (items.zipIdx.map Prod.snd).Pairwise (· < ·) := by
    rw [List.zipIdx_map_snd]
    exact List.pairwise_lt_range'
  exact (List.pairwise_map.1 h).imp id

/-- The items at some positions, each with its position. -/
def entriesAt (items : List α) (positions : List Nat) : List (Nat × α) :=
  positions.filterMap fun i => items[i]?.map (i, ·)

theorem map_fst_entriesAt {items : List α} {positions : List Nat} (h : ∀ i ∈ positions, i < items.length) :
    (entriesAt items positions).map (·.1) = positions := by
  induction positions with
  | nil => rfl
  | cons i rest ih =>
      have hi := List.getElem?_eq_getElem (h i List.mem_cons_self)
      have hrest := ih fun j hj => h j (List.mem_cons_of_mem _ hj)
      rw [entriesAt, List.filterMap_cons, hi]
      exact congrArg (i :: ·) hrest

theorem removals_eq_map (items : List α) (positions : List Nat) :
    removals items positions = (entriesAt items positions.reverse).map fun e => .removed e.1 e.2 := by
  rw [removals, entriesAt, List.map_filterMap]
  simp [Function.comp_def]

theorem insertions_eq_map (items : List α) (positions : List Nat) :
    insertions items positions = (entriesAt items positions).map fun e => .inserted e.1 e.2 := by
  rw [insertions, entriesAt, List.map_filterMap]
  simp [Function.comp_def]

section Kept

variable [DecidableEq α]

theorem getElem?_of_lastIndex? {item : α} {items : List α} {i : Nat}
    (h : lastIndex? item items = some i) : items[i]? = some item := by
  induction items generalizing i with
  | nil => simp [lastIndex?] at h
  | cons a rest ih =>
      rw [lastIndex?] at h
      cases hrest : lastIndex? item rest with
      | some j =>
          rw [hrest] at h
          cases h
          simpa using ih hrest
      | none =>
          rw [hrest] at h
          dsimp only at h
          split at h
          · rename_i heq
            cases h
            simp [heq]
          · cases h

theorem mem_keptFrom {old seen new : List α} {position : Nat} {k : Kept α}
    (h : k ∈ keptFrom old seen position new) :
    k.item ∉ seen ∧ old[k.source]? = some k.item ∧
      ∃ i, k.target = position + i ∧ new[i]? = some k.item := by
  induction new generalizing seen position with
  | nil => simp [keptFrom] at h
  | cons item rest ih =>
      have hlater : k ∈ keptFrom old (item :: seen) (position + 1) rest →
          k.item ∉ seen ∧ old[k.source]? = some k.item ∧
            ∃ i, k.target = position + i ∧ (item :: rest)[i]? = some k.item := by
        intro hk
        obtain ⟨hseen, hsource, i, htarget, hi⟩ := ih hk
        exact ⟨fun hmem => hseen (List.mem_cons_of_mem _ hmem), hsource, i + 1, by omega, by simpa using hi⟩
      rw [keptFrom] at h
      split at h
      · exact hlater h
      · rename_i hseen
        split at h
        · rename_i source hsource
          rcases List.mem_cons.1 h with rfl | hk
          · exact ⟨hseen, getElem?_of_lastIndex? hsource, 0, rfl, rfl⟩
          · exact hlater hk
        · exact hlater h

/-- The items that stay are different ones, in the new order. -/
theorem keptFrom_pairwise (old seen new : List α) (position : Nat) :
    (keptFrom old seen position new).Pairwise fun a b => a.target < b.target ∧ a.item ≠ b.item := by
  induction new generalizing seen position with
  | nil => exact List.Pairwise.nil
  | cons item rest ih =>
      rw [keptFrom]
      split
      · exact ih _ _
      · split
        · refine List.pairwise_cons.2 ⟨fun k hk => ?_, ih _ _⟩
          obtain ⟨hseen, -, i, htarget, -⟩ := mem_keptFrom hk
          refine ⟨by simp only; omega, fun heq => hseen ?_⟩
          simp only at heq
          exact heq ▸ List.mem_cons_self
        · exact ih _ _

theorem getElem?_source {old new : List α} {k : Kept α} (h : k ∈ kept old new) :
    old[k.source]? = some k.item := (mem_keptFrom h).2.1

theorem getElem?_target {old new : List α} {k : Kept α} (h : k ∈ kept old new) :
    new[k.target]? = some k.item := by
  obtain ⟨-, -, i, htarget, hi⟩ := mem_keptFrom h
  rw [htarget, Nat.zero_add]
  exact hi

theorem kept_items_nodup (old new : List α) : ((kept old new).map (·.item)).Nodup :=
  List.pairwise_map.2 ((keptFrom_pairwise old [] new 0).imp And.right)

/-- Two items that stay come from different positions. -/
theorem kept_sources_nodup (old new : List α) : ((kept old new).map (·.source)).Nodup := by
  refine List.pairwise_map.2 ((keptFrom_pairwise old [] new 0).imp_of_mem fun {a b} ha hb h heq => h.2 ?_)
  have hsource := getElem?_source ha
  rw [heq, getElem?_source hb] at hsource
  exact (Option.some.inj hsource).symm

/-- The items that stay, each with whether it stands still. -/
def marked (old new : List α) : List (Kept α × Bool) :=
  (kept old new).zipIdx.map fun e =>
    (e.1, decide (e.2 ∈ longestIncreasing ((kept old new).map (·.source))))

/-- The positions of items that go. -/
def removedOf (old new : List α) : List Nat :=
  (List.range old.length).filter fun i => i ∉ (kept old new).map (·.source)

/-- The positions of items that come. -/
def insertedOf (old new : List α) : List Nat :=
  (List.range new.length).filter fun i => i ∉ (kept old new).map (·.target)

theorem reorder_eq (old new : List α) : reorder old new =
    ⟨insertedOf old new, removedOf old new,
      ((marked old new).filter fun m => !m.2).map fun m => (m.1.source, m.1.target),
      removals old (removedOf old new) ++
        (movesFrom (without old (removedOf old new)) none (marked old new)).1 ++
        insertions new (insertedOf old new)⟩ := rfl

theorem map_fst_marked (old new : List α) : (marked old new).map (·.1) = kept old new := by
  rw [marked, List.map_map]
  exact List.zipIdx_map_fst 0 _

theorem mem_removedOf {old new : List α} {i : Nat} :
    i ∈ removedOf old new ↔ i < old.length ∧ ∀ k ∈ kept old new, k.source ≠ i := by
  simp [removedOf]

theorem mem_insertedOf {old new : List α} {i : Nat} :
    i ∈ insertedOf old new ↔ i < new.length ∧ ∀ k ∈ kept old new, k.target ≠ i := by
  simp [insertedOf]

theorem removedOf_pairwise (old new : List α) : (removedOf old new).Pairwise (· < ·) :=
  List.pairwise_lt_range.filter _

theorem insertedOf_pairwise (old new : List α) : (insertedOf old new).Pairwise (· < ·) :=
  List.pairwise_lt_range.filter _

/-- The items that stay at their old positions are what the removals leave. -/
theorem mem_filter_removedOf {old new : List α} {e : α × Nat} :
    (e ∈ old.zipIdx.filter fun e => e.2 ∉ removedOf old new) ↔
      e ∈ (kept old new).map fun k => (k.item, k.source) := by
  simp only [List.mem_filter, List.mem_zipIdx_iff_getElem?, decide_eq_true_eq, mem_removedOf, not_and,
    not_forall, ne_eq, not_not, List.mem_map]
  constructor
  · rintro ⟨he, hstay⟩
    obtain ⟨k, hk, hsource⟩ := hstay (List.getElem?_eq_some_iff.1 he).1
    have hitem := getElem?_source hk
    rw [hsource, he, Option.some.injEq] at hitem
    exact ⟨k, hk, Prod.ext hitem.symm hsource⟩
  · rintro ⟨k, hk, rfl⟩
    exact ⟨getElem?_source hk, fun _ => ⟨k, hk, rfl⟩⟩

theorem without_removedOf_perm (old new : List α) :
    (without old (removedOf old new)).Perm ((kept old new).map (·.item)) := by
  have hzip : (old.zipIdx.filter fun e => e.2 ∉ removedOf old new).Nodup :=
    ((zipIdx_pairwise old).filter _).nodup
  have hstay : ((kept old new).map fun k => (k.item, k.source)).Nodup := by
    apply List.Nodup.of_map Prod.fst
    rw [List.map_map]
    exact kept_items_nodup old new
  have hperm := ((List.perm_ext_iff_of_nodup hzip hstay).2 fun _ => mem_filter_removedOf).map Prod.fst
  rwa [List.map_map] at hperm

/-- The old positions of the items that stand still increase. -/
theorem still_pairwise (old new : List α) :
    ((marked old new).filter (·.2)).Pairwise fun a b => a.1.source < b.1.source := by
  rw [marked, List.filter_map, List.pairwise_map]
  refine List.Pairwise.imp_of_mem (fun {a b} ha hb hab => ?_)
    ((zipIdx_pairwise (kept old new)).filter _)
  simp only [Function.comp_def, List.mem_filter, decide_eq_true_eq, List.mem_zipIdx_iff_getElem?] at ha hb
  have hlt := numberAt_lt_of_mem ha.2 hb.2 hab
  simpa [numberAt, ha.1, hb.1] using hlt

/-- What stands still is in the new order already. -/
theorem still_sublist (old new : List α) :
    (((marked old new).filter (·.2)).map (·.1.item)).Sublist (without old (removedOf old new)) := by
  have hmem : ∀ m ∈ marked old new, m.1 ∈ kept old new := fun m hm => by
    rw [← map_fst_marked]
    exact List.mem_map_of_mem hm
  have hpairs : (((marked old new).filter (·.2)).map fun m => (m.1.item, m.1.source)).Pairwise Before :=
    List.pairwise_map.2 (still_pairwise old new)
  have hsubset : ((marked old new).filter (·.2)).map (fun m => (m.1.item, m.1.source)) ⊆
      old.zipIdx.filter fun e => e.2 ∉ removedOf old new := by
    intro e he
    obtain ⟨m, hm, rfl⟩ := List.mem_map.1 he
    exact mem_filter_removedOf.2 (List.mem_map.2 ⟨m.1, hmem m (List.mem_of_mem_filter hm), rfl⟩)
  have hsub := List.sublist_of_subperm_of_pairwise (List.subperm_of_subset hpairs.nodup hsubset) hpairs
    ((zipIdx_pairwise old).filter _)
  have hitems := hsub.map Prod.fst
  rwa [List.map_map] at hitems

/-- In their new order, the items that stay are what the insertions add to. -/
theorem without_insertedOf (old new : List α) :
    without new (insertedOf old new) = (kept old new).map (·.item) := by
  have hstay : ((kept old new).map fun k => (k.item, k.target)).Pairwise Before :=
    List.pairwise_map.2 ((keptFrom_pairwise old [] new 0).imp And.left)
  have heq := ((zipIdx_pairwise new).filter fun e => e.2 ∉ insertedOf old new).eq_of_mem_iff hstay
    fun e => by
      simp only [List.mem_filter, List.mem_zipIdx_iff_getElem?, decide_eq_true_eq, mem_insertedOf, not_and,
        not_forall, ne_eq, not_not, List.mem_map]
      constructor
      · rintro ⟨he, hstay⟩
        obtain ⟨k, hk, htarget⟩ := hstay (List.getElem?_eq_some_iff.1 he).1
        have hitem := getElem?_target hk
        rw [htarget, he, Option.some.injEq] at hitem
        exact ⟨k, hk, Prod.ext hitem.symm htarget⟩
      · rintro ⟨k, hk, rfl⟩
        exact ⟨getElem?_target hk, fun _ => ⟨k, hk, rfl⟩⟩
  rw [without, heq, List.map_map]
  rfl

/-- The moves bring the items that stay into their new order. -/
theorem replay?_moves (old new : List α) :
    ListChange.replay? (without old (removedOf old new))
        (movesFrom (without old (removedOf old new)) none (marked old new)).1 =
      some (without new (insertedOf old new)) := by
  have hperm := without_removedOf_perm old new
  have hitems : (marked old new).map (·.1.item) = (kept old new).map (·.item) := by
    rw [← map_fst_marked old new, List.map_map]
    rfl
  obtain ⟨hreplay, hsame, hsub⟩ := @replay?_movesFrom α _ (without old (removedOf old new)) []
    (marked old new) (hperm.nodup_iff.2 (kept_items_nodup old new))
    (fun m hm => hperm.mem_iff.2 (hitems ▸ List.mem_map_of_mem hm))
    (hitems ▸ kept_items_nodup old new) (still_sublist old new)
  have hend := hsub.eq_of_length (by rw [hsame.length_eq, hperm.length_eq, List.nil_append, hitems])
  rw [List.nil_append, hitems, ← without_insertedOf old new] at hend
  rw [hend]
  exact hreplay

/-- What a reordering has to tell about a list that became another one, in which some items stay. -/
structure Reordering.Accounts (old new : List α) (stay : List (Kept α)) (r : Reordering α) : Prop where
  /-- The changes make the new list out of the old one; no position is out of range on the way. -/
  replay : ListChange.replay? old r.changes = some new
  /-- Removals tell the items that stand in their places at that time. -/
  tells : ListChange.TellsRemoved old r.changes
  /-- First come the removals from the highest position down, then the moves, then the insertions from
  the lowest position up, and they are those on record. -/
  phases : ∃ (gone : List (Nat × α)) (moves : List (Nat × Nat)) (come : List (Nat × α)),
    r.changes = gone.map (fun e => .removed e.1 e.2) ++ moves.map (fun m => .moved m.1 m.2) ++
      come.map (fun e => .inserted e.1 e.2) ∧
    (gone.map (·.1)).Pairwise (· > ·) ∧ gone.map (·.1) = r.removed.reverse ∧
    (come.map (·.1)).Pairwise (· < ·) ∧ come.map (·.1) = r.inserted ∧ moves.length = r.moved.length
  /-- What stays is the same item at both positions. -/
  same : ∀ k ∈ stay, old[k.source]? = some k.item ∧ new[k.target]? = some k.item
  /-- Only what stays is moved. -/
  moved : r.moved.Sublist (stay.map fun k => (k.source, k.target))
  /-- An old position is removed or the partner of a new one. -/
  sources : ∀ i < old.length, i ∈ r.removed ↔ ¬∃ k ∈ stay, k.source = i
  /-- A new position is inserted or the partner of an old one. -/
  targets : ∀ i < new.length, i ∈ r.inserted ↔ ¬∃ k ∈ stay, k.target = i
  /-- No position has two partners. -/
  partners : ∀ j ∈ stay, ∀ k ∈ stay, j.source = k.source ↔ j.target = k.target

theorem lt_of_mem_removedOf (old new : List α) : ∀ i ∈ removedOf old new, i < old.length :=
  fun _ hi => (mem_removedOf.1 hi).1

theorem lt_of_mem_insertedOf (old new : List α) : ∀ i ∈ insertedOf old new, i < new.length :=
  fun _ hi => (mem_insertedOf.1 hi).1

/-- Two items that stay share a position in one list only if they do in the other. -/
theorem source_eq_iff_target_eq {old new : List α} {j k : Kept α} (hj : j ∈ kept old new)
    (hk : k ∈ kept old new) : j.source = k.source ↔ j.target = k.target := by
  constructor
  · intro h
    rw [List.inj_on_of_nodup_map (kept_sources_nodup old new) hj hk h]
  · intro h
    have hitem := getElem?_target hj
    rw [h, getElem?_target hk, Option.some.injEq] at hitem
    rw [List.inj_on_of_nodup_map (kept_items_nodup old new) hj hk hitem.symm]

theorem reorder_replays (old new : List α) :
    ListChange.replay? old (reorder old new).changes = some new ∧
      ListChange.TellsRemoved old (reorder old new).changes := by
  obtain ⟨hgone, htells⟩ := replay?_removals (removedOf_pairwise old new) (lt_of_mem_removedOf old new)
  have hmoves := replay?_moves old new
  have hcome := replay?_insertions (insertedOf_pairwise old new) (lt_of_mem_insertedOf old new)
  obtain ⟨moves, heq, -⟩ :=
    movesFrom_eq_map (without old (removedOf old new)) none (marked old new)
  have hquiet : ListChange.TellsRemoved (without old (removedOf old new))
      ((movesFrom (without old (removedOf old new)) none (marked old new)).1 ++
        insertions new (insertedOf old new)) := by
    refine ListChange.tellsRemoved_of_no_removal (fun c hc index item => ?_) _
    rw [heq, insertions_eq_map] at hc
    rcases List.mem_append.1 hc with hc | hc <;> obtain ⟨_, -, rfl⟩ := List.mem_map.1 hc <;> simp
  rw [reorder_eq, List.append_assoc]
  refine ⟨?_, htells.append hgone hquiet⟩
  rw [ListChange.replay?_append _ hgone, ListChange.replay?_append _ hmoves, hcome]

/-- **Reordering accounts for every position of both lists.** -/
theorem reorder_accounts (old new : List α) : (reorder old new).Accounts old new (kept old new) where
  replay := (reorder_replays old new).1
  tells := (reorder_replays old new).2
  phases := by
    obtain ⟨moves, hmoves, hlength⟩ :=
      movesFrom_eq_map (without old (removedOf old new)) none (marked old new)
    have hgone := map_fst_entriesAt fun i hi =>
      lt_of_mem_removedOf old new i (List.mem_reverse.1 hi)
    have hcome := map_fst_entriesAt (lt_of_mem_insertedOf old new)
    refine ⟨_, moves, _, ?_, ?_, hgone, ?_, hcome, ?_⟩
    · rw [reorder_eq, removals_eq_map, insertions_eq_map, hmoves]
    · rw [hgone]
      exact List.pairwise_reverse.2 (removedOf_pairwise old new)
    · rw [hcome]
      exact insertedOf_pairwise old new
    · rw [hlength, reorder_eq, List.length_map]
  same k hk := ⟨getElem?_source hk, getElem?_target hk⟩
  moved := by
    rw [reorder_eq, ← map_fst_marked, List.map_map]
    exact List.filter_sublist.map _
  sources i hi := by
    rw [reorder_eq, mem_removedOf]
    simp [hi]
  targets i hi := by
    rw [reorder_eq, mem_insertedOf]
    simp [hi]
  partners _ hj _ hk := source_eq_iff_target_eq hj hk

theorem exists_lastIndex? {item : α} {items : List α} (h : item ∈ items) :
    ∃ i, lastIndex? item items = some i := by
  induction items with
  | nil => exact absurd h List.not_mem_nil
  | cons a rest ih =>
      rw [lastIndex?]
      cases hrest : lastIndex? item rest with
      | some j => exact ⟨j + 1, rfl⟩
      | none =>
          rcases List.mem_cons.1 h with rfl | h
          · exact ⟨0, if_pos rfl⟩
          · obtain ⟨i, hi⟩ := ih h
            rw [hi] at hrest
            cases hrest

theorem lastIndex?_eq_some {item : α} {items : List α} {i : Nat} (hdistinct : items.Nodup)
    (h : items[i]? = some item) : lastIndex? item items = some i := by
  obtain ⟨hi, hitem⟩ := List.getElem?_eq_some_iff.1 h
  obtain ⟨j, hj⟩ := exists_lastIndex? (List.mem_of_getElem? h)
  obtain ⟨hj', hitem'⟩ := List.getElem?_eq_some_iff.1 (getElem?_of_lastIndex? hj)
  rw [hj, (List.Nodup.getElem_inj_iff hdistinct).1 (hitem'.trans hitem.symm)]

/-- Every item stays in its place. -/
theorem keptFrom_self {before rest seen : List α} (hdistinct : (before ++ rest).Nodup)
    (hseen : ∀ item ∈ rest, item ∉ seen) :
    keptFrom (before ++ rest) seen before.length rest =
      (rest.zipIdx before.length).map fun e => ⟨e.1, e.2, e.2⟩ := by
  induction rest generalizing before seen with
  | nil => rfl
  | cons item rest ih =>
      have hitem : lastIndex? item (before ++ item :: rest) = some before.length :=
        lastIndex?_eq_some hdistinct (by simp)
      have hne : ∀ other ∈ rest, other ∉ item :: seen := by
        intro other hother hmem
        rcases List.mem_cons.1 hmem with rfl | hmem
        · exact (List.nodup_cons.1 (List.nodup_append.1 hdistinct).2.1).1 hother
        · exact hseen other (List.mem_cons_of_mem _ hother) hmem
      have hlater := @ih (before ++ [item]) (item :: seen) (by simpa using hdistinct) hne
      rw [keptFrom, if_neg (hseen item List.mem_cons_self), hitem, List.zipIdx_cons, List.map_cons]
      simpa using hlater

/-- A list of different items that keeps its contents does not change. -/
theorem reorder_self {items : List α} (hdistinct : items.Nodup) :
    reorder items items = ⟨[], [], [], []⟩ := by
  have hkept : kept items items = items.zipIdx.map fun e => ⟨e.1, e.2, e.2⟩ :=
    @keptFrom_self α _ [] items [] hdistinct fun _ _ => List.not_mem_nil
  have hsources : (kept items items).map (·.source) = List.range items.length := by
    rw [hkept, List.map_map, List.range_eq_range', ← List.zipIdx_map_snd 0 items]
    rfl
  have htargets : (kept items items).map (·.target) = List.range items.length := by
    rw [hkept, List.map_map, List.range_eq_range', ← List.zipIdx_map_snd 0 items]
    rfl
  have hremoved : removedOf items items = [] := by
    rw [removedOf, hsources]
    simp
  have hinserted : insertedOf items items = [] := by
    rw [insertedOf, htargets]
    simp
  have hstill : (marked items items).filter (fun m => !m.2) = [] := by
    rw [marked, hsources, longestIncreasing_of_pairwise List.pairwise_lt_range, List.filter_map,
      List.map_eq_nil_iff, List.filter_eq_nil_iff]
    intro e he
    have := List.snd_lt_of_mem_zipIdx he
    have hlength : (kept items items).length = items.length := by rw [hkept]; simp
    simpa [← hlength] using this
  obtain ⟨moves, hmoves, hlength⟩ :=
    movesFrom_eq_map (without items (removedOf items items)) none (marked items items)
  rw [hstill, List.length_nil, List.length_eq_zero_iff] at hlength
  rw [reorder_eq, hmoves, hlength, hstill, hremoved, hinserted]
  rfl

end Kept

end GraphClient.Live
