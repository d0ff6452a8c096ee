import GraphClient.Live.Heap
import GraphClient.Proofs.Live.Reordering

/-! The moves of a reordering are as few as can be. A move leaves all items but one in their relative
order, so what several moves make of a list has a part in common with it that lacks at most one item for
each of them. For different items such a common part is an increasing part of the old positions, and
everything but a longest one of these is moved. A move that changes nothing could be left out, so that
fewer moves would do; hence there is none. -/

namespace GraphClient.Live

variable {α : Type}

/-- The old and the new position of a move. -/
def ListChange.move? : ListChange α → Option (Nat × Nat)
  | moved source target => some (source, target)
  | _ => none

/-- The moves among some changes. -/
def movesOf (changes : List (ListChange α)) : List (Nat × Nat) := changes.filterMap ListChange.move?

/-- The list after several moves. -/
def replayMoves? (items : List α) (moves : List (Nat × Nat)) : Option (List α) :=
  ListChange.replay? items (moves.map fun m => .moved m.1 m.2)

theorem after?_moved_eq_some {items next : List α} {source target : Nat} :
    ListChange.after? items (.moved source target) = some next ↔
      ∃ item, items[source]? = some item ∧ target ≤ (items.eraseIdx source).length ∧
        next = (items.eraseIdx source).insertIdx target item := by
  simp only [ListChange.after?, Option.bind_eq_bind, Option.bind_eq_some_iff, Option.ite_none_right_eq_some,
    Option.some.injEq, eq_comm (a := next)]

theorem replayMoves?_cons {items finish : List α} {source target : Nat} {moves : List (Nat × Nat)} :
    replayMoves? items ((source, target) :: moves) = some finish ↔
      ∃ next, ListChange.after? items (.moved source target) = some next ∧
        replayMoves? next moves = some finish := by
  rw [replayMoves?, List.map_cons, ListChange.replay?_cons, Option.bind_eq_some_iff]
  rfl

theorem replayMoves?_append {items finish : List α} {first second : List (Nat × Nat)} :
    replayMoves? items (first ++ second) = some finish ↔
      ∃ mid, replayMoves? items first = some mid ∧ replayMoves? mid second = some finish := by
  induction first generalizing items with
  | nil => simp [replayMoves?]
  | cons m rest ih =>
      obtain ⟨source, target⟩ := m
      simp only [List.cons_append, replayMoves?_cons, ih]
      constructor
      · rintro ⟨next, hnext, mid, hmid, hfinish⟩
        exact ⟨mid, ⟨next, hnext, hmid⟩, hfinish⟩
      · rintro ⟨mid, ⟨next, hnext, hmid⟩, hfinish⟩
        exact ⟨next, hnext, mid, hmid, hfinish⟩

/-- An item that is put where it was taken from changes nothing. -/
theorem after?_moved_self {items next : List α} {i : Nat}
    (h : ListChange.after? items (.moved i i) = some next) : next = items := by
  obtain ⟨item, hitem, -, rfl⟩ := after?_moved_eq_some.1 h
  obtain ⟨hi, rfl⟩ := List.getElem?_eq_some_iff.1 hitem
  exact List.insertIdx_eraseIdx_getElem hi

/-- But for one item, a part of a list with one item more is a part of the list. -/
theorem exists_sublist_of_insertIdx {part items : List α} {i : Nat} {item : α}
    (h : part.Sublist (items.insertIdx i item)) :
    ∃ rest : List α, rest.Sublist part ∧ rest.Sublist items ∧ part.length ≤ rest.length + 1 := by
  induction i generalizing part items with
  | zero =>
      rcases List.sublist_cons_iff.1 h with hitems | ⟨rest, rfl, hitems⟩
      · exact ⟨part, List.Sublist.refl _, hitems, Nat.le_succ _⟩
      · exact ⟨rest, List.sublist_cons_self _ _, hitems, Nat.le_refl _⟩
  | succ i ih =>
      cases items with
      | nil => exact ⟨part, List.Sublist.refl _, h, Nat.le_succ _⟩
      | cons first items =>
          rcases List.sublist_cons_iff.1 h with hlater | ⟨part, rfl, hlater⟩
          · obtain ⟨rest, hpart, hitems, hlength⟩ := ih hlater
            exact ⟨rest, hpart, hitems.cons _, hlength⟩
          · obtain ⟨rest, hpart, hitems, hlength⟩ := ih hlater
            exact ⟨first :: rest, hpart.cons_cons _, hitems.cons_cons _, Nat.succ_le_succ hlength⟩

/-- Several moves leave all items but one for each of them in their relative order. -/
theorem exists_common_sublist {start finish : List α} {moves : List (Nat × Nat)}
    (h : replayMoves? start moves = some finish) :
    ∃ common : List α, common.Sublist start ∧ common.Sublist finish ∧
      start.length ≤ common.length + moves.length := by
  induction moves generalizing start with
  | nil =>
      cases h
      exact ⟨_, List.Sublist.refl _, List.Sublist.refl _, Nat.le_refl _⟩
  | cons m moves ih =>
      obtain ⟨next, hnext, hfinish⟩ := replayMoves?_cons.1 h
      obtain ⟨item, hitem, htarget, rfl⟩ := after?_moved_eq_some.1 hnext
      obtain ⟨common, hcommon, hcommon', hlength⟩ := ih hfinish
      obtain ⟨rest, hrest, hothers, hone⟩ := exists_sublist_of_insertIdx hcommon
      refine ⟨rest, hothers.trans (List.eraseIdx_sublist _ _), hrest.trans hcommon', ?_⟩
      obtain ⟨hsource, -⟩ := List.getElem?_eq_some_iff.1 hitem
      rw [List.length_insertIdx_of_le_length htarget, List.length_eraseIdx_of_lt hsource] at hlength
      rw [List.length_cons]
      omega

/-- A part of a list lacks no more items of a kind than items at all. -/
theorem length_filter_add_length {part items : List α} (h : part.Sublist items) (p : α → Bool) :
    (items.filter p).length + part.length ≤ (part.filter p).length + items.length := by
  induction h with
  | slnil => exact Nat.le_refl _
  | cons a _ ih =>
      rw [List.filter_cons]
      split <;> simp only [List.length_cons] <;> omega
  | cons_cons a _ ih =>
      rw [List.filter_cons, List.filter_cons]
      split <;> simp only [List.length_cons] <;> omega

variable [DecidableEq α]

/-- Of different items, a part is told by what is in it. -/
theorem eq_filter_of_sublist {part items : List α} (h : part.Sublist items) (hdistinct : items.Nodup) :
    part = items.filter (· ∈ part) := by
  induction h with
  | slnil => rfl
  | cons a h ih =>
      obtain ⟨ha, hdistinct⟩ := List.nodup_cons.1 hdistinct
      rw [List.filter_cons_of_neg (by simpa using fun hmem => ha (h.subset hmem)), ← ih hdistinct]
  | @cons_cons part items a h ih =>
      obtain ⟨ha, hdistinct⟩ := List.nodup_cons.1 hdistinct
      have hrest : items.filter (· ∈ a :: part) = items.filter (· ∈ part) := by
        refine List.filter_congr fun x hx => ?_
        have hne : x ≠ a := fun heq => ha (heq ▸ hx)
        simp [hne]
      rw [List.filter_cons_of_pos (by simp), hrest, ← ih hdistinct]

theorem map_idxOf_self {items : List α} (hdistinct : items.Nodup) :
    items.map items.idxOf = List.range items.length := by
  apply List.ext_getElem
  · simp
  · intro i hi _
    rw [List.length_map] at hi
    simp [hdistinct.idxOf_getElem i hi]

/-- The positions of a part of different items increase. -/
theorem map_idxOf_pairwise {part items : List α} (h : part.Sublist items) (hdistinct : items.Nodup) :
    (part.map items.idxOf).Pairwise (· < ·) := by
  have hsub := h.map items.idxOf
  rw [map_idxOf_self hdistinct] at hsub
  exact List.pairwise_lt_range.sublist hsub

theorem map_item_keptFrom {old seen new : List α} (hdistinct : new.Nodup) (hseen : ∀ item ∈ new, item ∉ seen)
    (position : Nat) : (keptFrom old seen position new).map (·.item) = new.filter (· ∈ old) := by
  induction new generalizing seen position with
  | nil => rfl
  | cons item rest ih =>
      obtain ⟨hitem, hdistinct⟩ := List.nodup_cons.1 hdistinct
      have hrest : ∀ other ∈ rest, other ∉ item :: seen := by
        intro other hother hmem
        rcases List.mem_cons.1 hmem with rfl | hmem
        · exact hitem hother
        · exact hseen other (List.mem_cons_of_mem _ hother) hmem
      rw [keptFrom, if_neg (hseen item List.mem_cons_self)]
      by_cases hold : item ∈ old
      · obtain ⟨source, hsource⟩ := exists_lastIndex? hold
        rw [hsource, List.map_cons, ih hdistinct hrest, List.filter_cons_of_pos (by simpa using hold)]
      · have hnone : lastIndex? item old = none := by
          cases hlast : lastIndex? item old with
          | none => rfl
          | some i => exact absurd (List.mem_of_getElem? (getElem?_of_lastIndex? hlast)) hold
        rw [hnone, ih hdistinct hrest, List.filter_cons_of_neg (by simpa using hold)]

theorem map_item_kept {old new : List α} (hdistinct : new.Nodup) :
    (kept old new).map (·.item) = new.filter (· ∈ old) :=
  map_item_keptFrom hdistinct (fun _ _ => List.not_mem_nil) 0

theorem map_source_kept {old new : List α} (hold : old.Nodup) (hnew : new.Nodup) :
    (kept old new).map (·.source) = (new.filter (· ∈ old)).map old.idxOf := by
  rw [← map_item_kept hnew, List.map_map]
  refine List.map_congr_left fun k hk => ?_
  obtain ⟨hi, hitem⟩ := List.getElem?_eq_some_iff.1 (getElem?_source hk)
  rw [Function.comp_apply, ← hitem, hold.idxOf_getElem k.source hi]

theorem without_insertedOf_eq_filter {old new : List α} (hdistinct : new.Nodup) :
    without new (insertedOf old new) = new.filter (· ∈ old) := by
  rw [without_insertedOf, map_item_kept hdistinct]

/-- Different items that stay are those that the new list has too. -/
theorem without_removedOf_eq_filter {old new : List α} (hold : old.Nodup) (hnew : new.Nodup) :
    without old (removedOf old new) = old.filter (· ∈ new) := by
  have hsub : (without old (removedOf old new)).Sublist old := by
    have h := (List.filter_sublist (l := old.zipIdx) (p := fun e => e.2 ∉ removedOf old new)).map (·.1)
    rwa [List.zipIdx_map_fst] at h
  rw [eq_filter_of_sublist hsub hold]
  refine List.filter_congr fun x hx => ?_
  have hmem := (without_removedOf_perm old new).mem_iff (a := x)
  rw [map_item_kept hnew, List.mem_filter] at hmem
  simpa [hx] using hmem

theorem exists_kept {old new : List α} (hdistinct : new.Nodup) {x : α} (hold : x ∈ old) (hnew : x ∈ new) :
    ∃ k ∈ kept old new, k.item = x := by
  have hmem : x ∈ (kept old new).map (·.item) := by
    rw [map_item_kept hdistinct, List.mem_filter]
    exact ⟨hnew, by simpa using hold⟩
  exact List.mem_map.1 hmem

/-- Of different items, those come that were not there. -/
theorem mem_insertedOf_iff {old new : List α} (hdistinct : new.Nodup) {i : Nat} :
    i ∈ insertedOf old new ↔ ∃ x, new[i]? = some x ∧ x ∉ old := by
  rw [mem_insertedOf]
  constructor
  · rintro ⟨hi, hnone⟩
    refine ⟨new[i], List.getElem?_eq_getElem hi, fun hold => ?_⟩
    obtain ⟨k, hk, hitem⟩ := exists_kept hdistinct hold (List.getElem_mem hi)
    have htarget := getElem?_target hk
    rw [hitem, ← List.getElem?_eq_getElem hi] at htarget
    exact hnone k hk ((List.getElem?_inj hi hdistinct).1 htarget.symm).symm
  · rintro ⟨x, hx, hnot⟩
    refine ⟨(List.getElem?_eq_some_iff.1 hx).1, fun k hk htarget => hnot ?_⟩
    have hitem := getElem?_target hk
    rw [htarget, hx, Option.some.injEq] at hitem
    exact hitem ▸ List.mem_of_getElem? (getElem?_source hk)

/-- Of different items, those go that are not there any more. -/
theorem mem_removedOf_iff {old new : List α} (hold : old.Nodup) (hnew : new.Nodup) {i : Nat} :
    i ∈ removedOf old new ↔ ∃ x, old[i]? = some x ∧ x ∉ new := by
  rw [mem_removedOf]
  constructor
  · rintro ⟨hi, hnone⟩
    refine ⟨old[i], List.getElem?_eq_getElem hi, fun hmem => ?_⟩
    obtain ⟨k, hk, hitem⟩ := exists_kept hnew (List.getElem_mem hi) hmem
    have hsource := getElem?_source hk
    rw [hitem, ← List.getElem?_eq_getElem hi] at hsource
    exact hnone k hk ((List.getElem?_inj hi hold).1 hsource.symm).symm
  · rintro ⟨x, hx, hnot⟩
    refine ⟨(List.getElem?_eq_some_iff.1 hx).1, fun k hk hsource => hnot ?_⟩
    have hitem := getElem?_source hk
    rw [hsource, hx, Option.some.injEq] at hitem
    exact hitem ▸ List.mem_of_getElem? (getElem?_target hk)

/-- A strictly increasing part of some numbers that none is longer than. -/
structure LongestIncreasing (numbers part : List Nat) : Prop where
  sublist : part.Sublist numbers
  increases : part.Pairwise (· < ·)
  longest : ∀ other : List Nat, other.Sublist numbers → other.Pairwise (· < ·) →
    other.length ≤ part.length

theorem longestIncreasing_isLongest (numbers : List Nat) :
    LongestIncreasing numbers ((longestIncreasing numbers).map (numberAt numbers)) where
  sublist := map_longestIncreasing_sublist numbers
  increases := List.pairwise_map.2 ((longestIncreasing_pairwise numbers).imp And.right)
  longest other hother hup := by
    rw [List.length_map]
    exact length_le_longestIncreasing hother hup

/-- What makes the moves from one list to another as few as can be. -/
structure Reordering.MovesLeast (old new : List α) (r : Reordering α) : Prop where
  /-- The moves take the items that stay from their old order to their new one. -/
  reorders : replayMoves? (old.filter (· ∈ new)) (movesOf r.changes) = some (new.filter (· ∈ old))
  /-- Moves that do so are no fewer, whatever other items are in the list then. -/
  least : ∀ (start finish : List α) (moves : List (Nat × Nat)),
    start.filter (fun x => x ∈ old ∧ x ∈ new) = old.filter (· ∈ new) →
    finish.filter (fun x => x ∈ old ∧ x ∈ new) = new.filter (· ∈ old) →
    replayMoves? start moves = some finish → (movesOf r.changes).length ≤ moves.length
  /-- All items that stay are moved, but for those at a longest increasing part of the old positions. -/
  count : ∃ still, LongestIncreasing ((new.filter (· ∈ old)).map old.idxOf) still ∧
    (movesOf r.changes).length + still.length = (new.filter (· ∈ old)).length
  /-- No item is put where it was taken from. -/
  proper : ∀ m ∈ movesOf r.changes, m.1 ≠ m.2

/-- The items that stand still are at the positions of a longest increasing part. -/
theorem length_still (old new : List α) : ((marked old new).filter (·.2)).length =
    (longestIncreasing ((kept old new).map (·.source))).length := by
  have hrange := longestIncreasing_sublist_range ((kept old new).map (·.source))
  rw [List.length_map] at hrange
  have hpositions : (((kept old new).zipIdx.filter fun e =>
      decide (e.2 ∈ longestIncreasing ((kept old new).map (·.source)))).map (·.2)) =
      (List.range (kept old new).length).filter
        (· ∈ longestIncreasing ((kept old new).map (·.source))) := by
    rw [List.range_eq_range', ← List.zipIdx_map_snd 0 (kept old new), List.filter_map]
    rfl
  rw [← eq_filter_of_sublist hrange List.nodup_range] at hpositions
  have hlength := congrArg List.length hpositions
  rw [List.length_map] at hlength
  rw [marked, List.filter_map, List.length_map, ← hlength]
  rfl

/-- All items that stay but do not stand still are moved, and nothing else is. -/
theorem movesOf_reorder (old new : List α) :
    (movesOf (reorder old new).changes).map (fun m => .moved m.1 m.2) =
        (movesFrom (without old (removedOf old new)) none (marked old new)).1 ∧
      (movesOf (reorder old new).changes).length +
          (longestIncreasing ((kept old new).map (·.source))).length = (kept old new).length := by
  obtain ⟨moves, hmoves, hlength⟩ :=
    movesFrom_eq_map (without old (removedOf old new)) none (marked old new)
  have heq : movesOf (reorder old new).changes = moves := by
    rw [reorder_eq, movesOf, hmoves, removals_eq_map, insertions_eq_map, List.filterMap_append,
      List.filterMap_append]
    simp [List.filterMap_map, Function.comp_def, ListChange.move?]
  have hmarked : (marked old new).length = (kept old new).length := by
    rw [← map_fst_marked old new, List.length_map]
  rw [heq, hmoves, hlength, ← length_still, ← hmarked, Nat.add_comm]
  exact ⟨rfl, (List.length_eq_length_filter_add _).symm⟩

theorem replayMoves?_reorder {old new : List α} (hold : old.Nodup) (hnew : new.Nodup) :
    replayMoves? (old.filter (· ∈ new)) (movesOf (reorder old new).changes) =
      some (new.filter (· ∈ old)) := by
  have h := replay?_moves old new
  rwa [without_removedOf_eq_filter hold hnew, without_insertedOf_eq_filter hnew,
    ← without_removedOf_eq_filter hold hnew, ← (movesOf_reorder old new).1,
    without_removedOf_eq_filter hold hnew] at h

/-- A part that both lists have in the same order stays as it is in a reordering with as many moves. -/
theorem length_le_of_common {old new common : List α} (hold : old.Nodup) (hnew : new.Nodup)
    (hcommon : common.Sublist (old.filter (· ∈ new))) (hcommon' : common.Sublist (new.filter (· ∈ old))) :
    common.length ≤ (longestIncreasing ((kept old new).map (·.source))).length := by
  have hpositions := hcommon'.map old.idxOf
  rw [← map_source_kept hold hnew] at hpositions
  simpa using length_le_longestIncreasing hpositions
    (map_idxOf_pairwise (hcommon.trans List.filter_sublist) hold)

theorem reorder_moves_le {old new start finish : List α} {moves : List (Nat × Nat)} (hold : old.Nodup)
    (hnew : new.Nodup) (hstart : start.filter (fun x => x ∈ old ∧ x ∈ new) = old.filter (· ∈ new))
    (hfinish : finish.filter (fun x => x ∈ old ∧ x ∈ new) = new.filter (· ∈ old))
    (h : replayMoves? start moves = some finish) :
    (movesOf (reorder old new).changes).length ≤ moves.length := by
  obtain ⟨common, hcommon, hcommon', hlength⟩ := exists_common_sublist h
  have hstay := length_filter_add_length hcommon fun x => x ∈ old ∧ x ∈ new
  have hstart' := hcommon.filter fun x => x ∈ old ∧ x ∈ new
  have hfinish' := hcommon'.filter fun x => x ∈ old ∧ x ∈ new
  rw [hstart] at hstay hstart'
  rw [hfinish] at hfinish'
  have hstill := length_le_of_common hold hnew hstart' hfinish'
  have hcount := (movesOf_reorder old new).2
  have hperm := (without_removedOf_perm old new).length_eq
  rw [without_removedOf_eq_filter hold hnew, List.length_map] at hperm
  omega

/-- **Moves are as few as can be.** -/
theorem reorder_movesLeast {old new : List α} (hold : old.Nodup) (hnew : new.Nodup) :
    (reorder old new).MovesLeast old new where
  reorders := replayMoves?_reorder hold hnew
  least _ _ _ hstart hfinish h := reorder_moves_le hold hnew hstart hfinish h
  count := by
    refine ⟨_, longestIncreasing_isLongest _, ?_⟩
    rw [← map_source_kept hold hnew, ← map_item_kept hnew, List.length_map, List.length_map]
    exact (movesOf_reorder old new).2
  proper := by
    rintro ⟨i, _⟩ hm (rfl : i = _)
    -- Without this move the others do the same, and they are fewer.
    obtain ⟨first, second, heq⟩ := List.append_of_mem hm
    have h := replayMoves?_reorder hold hnew
    rw [heq] at h
    obtain ⟨mid, hmid, hrest⟩ := replayMoves?_append.1 h
    obtain ⟨next, hnext, hfinish⟩ := replayMoves?_cons.1 hrest
    rw [after?_moved_self hnext] at hfinish
    have hstart : (old.filter (· ∈ new)).filter (fun x => x ∈ old ∧ x ∈ new) = old.filter (· ∈ new) :=
      List.filter_eq_self.2 fun x hx => by simpa using hx
    have hfinish' : (new.filter (· ∈ old)).filter (fun x => x ∈ old ∧ x ∈ new) = new.filter (· ∈ old) :=
      List.filter_eq_self.2 fun x hx => by simpa [and_comm] using hx
    have hle := reorder_moves_le hold hnew hstart hfinish'
      (replayMoves?_append.2 ⟨mid, hmid, hfinish⟩)
    rw [heq] at hle
    simp only [List.length_append, List.length_cons] at hle
    omega

/-- **Giving a list other contents takes as few moves as can be.** -/
theorem Heap.setItems_movesLeast (h : Heap) (l : ListId) {items : List ObjectId}
    (hold : (h.list l).items.Nodup) (hnew : items.Nodup) :
    (h.setItems l items).1.MovesLeast (h.list l).items items :=
  reorder_movesLeast hold hnew

section Sample

/-- Four users in a list. -/
def rowOfUsers : Heap :=
  let user : Instance := ⟨"User", .empty, some ⟨0⟩⟩
  ⟨⟨#[user, user, user, user]⟩, ⟨#[⟨"User", true, [⟨0⟩, ⟨1⟩, ⟨2⟩, ⟨3⟩]⟩]⟩⟩

/-- The last user comes to the front in one move. -/
theorem setItems_movesLeast_rowOfUsers :
    (rowOfUsers.setItems ⟨0⟩ [⟨3⟩, ⟨0⟩, ⟨1⟩, ⟨2⟩]).1.MovesLeast (rowOfUsers.list ⟨0⟩).items
        [⟨3⟩, ⟨0⟩, ⟨1⟩, ⟨2⟩] ∧
      movesOf (rowOfUsers.setItems ⟨0⟩ [⟨3⟩, ⟨0⟩, ⟨1⟩, ⟨2⟩]).1.changes = [(3, 0)] :=
  ⟨Heap.setItems_movesLeast rowOfUsers ⟨0⟩ (by decide) (by decide), by decide⟩

end Sample

end GraphClient.Live
