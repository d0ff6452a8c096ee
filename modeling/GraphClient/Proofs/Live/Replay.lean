import GraphClient.Live.Reorder
import Mathlib.Data.List.Basic
import Mathlib.Data.List.Induction
import Mathlib.Data.List.Perm.Basic

/-! Replaying the three kinds of changes, each on the list as it is at that time. Removals from the
highest position down leave the items at the other positions, and insertions from the lowest position up
are the same read backwards. A move puts an item right behind the one that comes before it in the new
order. What has been settled and what stands still is at any time in the new order, and that carries the
argument: when all is settled, the whole list is. -/

namespace GraphClient.Live

variable {α : Type}

namespace ListChange

@[simp] theorem replay?_nil (items : List α) : replay? items [] = some items := rfl

theorem replay?_cons (items : List α) (c : ListChange α) (rest : List (ListChange α)) :
    replay? items (c :: rest) = (after? items c).bind fun now => replay? now rest := rfl

theorem replay?_append {items now : List α} {first : List (ListChange α)} (second : List (ListChange α))
    (h : replay? items first = some now) : replay? items (first ++ second) = replay? now second := by
  simp only [replay?] at h ⊢
  rw [List.foldlM_append, h]
  rfl

/-- Whether every removal tells the item that stands in its place at that time. -/
def TellsRemoved : List α → List (ListChange α) → Prop
  | _, [] => True
  | items, c :: rest =>
      (∀ index item, c = .removed index item → items[index]? = some item) ∧
        ∀ now, after? items c = some now → TellsRemoved now rest

theorem TellsRemoved.append {items now : List α} {first second : List (ListChange α)}
    (h : TellsRemoved items first) (hnow : replay? items first = some now)
    (hs : TellsRemoved now second) : TellsRemoved items (first ++ second) := by
  induction first generalizing items with
  | nil =>
      rw [replay?_nil, Option.some.injEq] at hnow
      exact hnow ▸ hs
  | cons c rest ih =>
      refine ⟨h.1, fun next hnext => ih (h.2 next hnext) ?_⟩
      rw [replay?_cons, hnext] at hnow
      exact hnow

theorem tellsRemoved_of_no_removal {changes : List (ListChange α)}
    (h : ∀ c ∈ changes, ∀ index item, c ≠ .removed index item) (items : List α) :
    TellsRemoved items changes := by
  induction changes generalizing items with
  | nil => exact trivial
  | cons c rest ih =>
      refine ⟨fun index item hc => absurd hc (h c List.mem_cons_self index item), fun now _ => ?_⟩
      exact ih (fun c hc => h c (List.mem_cons_of_mem _ hc)) now

end ListChange

open ListChange (replay? TellsRemoved)

/-- All positions left out lie before these items. -/
theorem filter_zipIdx_of_lt {items : List α} {start : Nat} {positions : List Nat}
    (h : ∀ i ∈ positions, i < start) :
    ((items.zipIdx start).filter fun e => e.2 ∉ positions).map (·.1) = items := by
  rw [List.filter_eq_self.2, List.zipIdx_map_fst]
  intro e he
  have hle := List.le_snd_of_mem_zipIdx he
  simp only [decide_eq_true_eq]
  intro hmem
  have := h _ hmem
  omega

/-- All positions left out lie behind these items. -/
theorem filter_zipIdx_of_ge {items : List α} {start : Nat} {positions : List Nat}
    (h : ∀ i ∈ positions, start + items.length ≤ i) :
    ((items.zipIdx start).filter fun e => e.2 ∉ positions).map (·.1) = items := by
  rw [List.filter_eq_self.2, List.zipIdx_map_fst]
  intro e he
  have hlt := List.snd_lt_add_of_mem_zipIdx he
  simp only [decide_eq_true_eq]
  intro hmem
  have := h _ hmem
  omega

@[simp] theorem without_nil (items : List α) : without items [] = items :=
  filter_zipIdx_of_lt fun _ hi => absurd hi List.not_mem_nil

/-- Everything before the first position left out stays where it is. -/
theorem without_append_cons {before after : List α} {item : α} {positions : List Nat}
    (h : ∀ i ∈ positions, before.length < i) :
    without (before ++ item :: after) positions =
      before ++ item :: ((after.zipIdx (before.length + 1)).filter fun e => e.2 ∉ positions).map (·.1) := by
  have hbefore : ((before.zipIdx 0).filter fun e => e.2 ∉ positions).map (·.1) = before :=
    filter_zipIdx_of_ge fun i hi => by
      have := h i hi
      omega
  have hitem : before.length ∉ positions := fun hi => Nat.lt_irrefl _ (h _ hi)
  rw [without, List.zipIdx_append, List.filter_append, List.map_append, hbefore]
  simp [List.zipIdx_cons, hitem]

/-- Leaving out one more position, before all others. -/
theorem without_append_cons_cons {before after : List α} {item : α} {positions : List Nat}
    (h : ∀ i ∈ positions, before.length < i) :
    without (before ++ item :: after) (before.length :: positions) =
      before ++ ((after.zipIdx (before.length + 1)).filter fun e => e.2 ∉ positions).map (·.1) := by
  have hbefore : ((before.zipIdx 0).filter fun e => e.2 ∉ before.length :: positions).map (·.1) = before :=
    filter_zipIdx_of_ge fun i hi => by
      rcases List.mem_cons.1 hi with rfl | hi
      · omega
      · have := h i hi
        omega
  have hafter : ((after.zipIdx (before.length + 1)).filter fun e => e.2 ∉ before.length :: positions) =
      (after.zipIdx (before.length + 1)).filter fun e => e.2 ∉ positions := by
    apply List.filter_congr
    intro e he
    have := List.le_snd_of_mem_zipIdx he
    have hne : e.2 ≠ before.length := by omega
    simp [hne]
  rw [without, List.zipIdx_append, List.filter_append, List.map_append, hbefore]
  simp only [Nat.zero_add, List.zipIdx_cons, List.filter_cons, List.mem_cons, true_or, not_true_eq_false,
    decide_false, Bool.false_eq_true, if_false]
  rw [← hafter]
  simp

theorem exists_append_cons {items : List α} {i : Nat} (h : i < items.length) :
    ∃ before item after, items = before ++ item :: after ∧ before.length = i :=
  ⟨items.take i, items[i], items.drop (i + 1), by simp, by simp; omega⟩

theorem insertIdx_append_length (before after : List α) (item : α) :
    (before ++ after).insertIdx before.length item = before ++ item :: after := by
  induction before with
  | nil => rfl
  | cons first rest ih => simp [ih]

/-- Inserting from the lowest position up gives the whole list. -/
theorem replay?_insertions {items : List α} {positions : List Nat}
    (hsorted : positions.Pairwise (· < ·)) (hlt : ∀ i ∈ positions, i < items.length) :
    replay? (without items positions) (insertions items positions) = some items := by
  induction positions with
  | nil => simp [insertions]
  | cons i rest ih =>
      obtain ⟨hfirst, hsorted⟩ := List.pairwise_cons.1 hsorted
      have hrest := ih hsorted fun j hj => hlt j (List.mem_cons_of_mem _ hj)
      obtain ⟨before, item, after, rfl, rfl⟩ := exists_append_cons (hlt i List.mem_cons_self)
      have hinsert : insertions (before ++ item :: after) (before.length :: rest) =
          .inserted before.length item :: insertions (before ++ item :: after) rest := by
        simp [insertions]
      have hafter : ListChange.after? (without (before ++ item :: after) (before.length :: rest))
          (.inserted before.length item) = some (without (before ++ item :: after) rest) := by
        rw [without_append_cons_cons hfirst, without_append_cons hfirst, ListChange.after?,
          insertIdx_append_length, if_pos (by simp)]
      rw [hinsert, ListChange.replay?_cons, hafter]
      exact hrest

/-- Leaving out one more position, behind all others. -/
theorem without_concat {items : List α} {positions : List Nat} {i : Nat} (hi : i < items.length)
    (h : ∀ j ∈ positions, j < i) :
    without (items.eraseIdx i) positions = without items (positions ++ [i]) := by
  obtain ⟨before, item, after, rfl, rfl⟩ := exists_append_cons hi
  have hbefore : ((before.zipIdx 0).filter fun e => e.2 ∉ positions ++ [before.length]) =
      (before.zipIdx 0).filter fun e => e.2 ∉ positions := by
    apply List.filter_congr
    intro e he
    have := List.snd_lt_add_of_mem_zipIdx he
    have hne : e.2 ≠ before.length := by omega
    simp [hne]
  have hafter : ((after.zipIdx (before.length + 1)).filter fun e => e.2 ∉ positions ++ [before.length]).map
      (·.1) = after := by
    apply filter_zipIdx_of_lt
    intro j hj
    rcases List.mem_append.1 hj with hj | hj
    · have := h j hj
      omega
    · have := List.mem_singleton.1 hj
      omega
  have herase : (before ++ item :: after).eraseIdx before.length = before ++ after := by
    rw [List.eraseIdx_append_of_length_le (Nat.le_refl _)]
    simp
  rw [herase, without, without, List.zipIdx_append, List.zipIdx_append, List.filter_append,
    List.filter_append, List.map_append, List.map_append, hbefore]
  congr 1
  have hkept := @filter_zipIdx_of_lt α after (0 + before.length) positions fun j hj => by
    simpa using h j hj
  rw [hkept, List.zipIdx_cons, List.filter_cons]
  simpa using hafter.symm

theorem removals_concat {items : List α} {positions : List Nat} {i : Nat} {item : α}
    (hitem : items[i]? = some item) (h : ∀ j ∈ positions, j < i) :
    removals items (positions ++ [i]) = .removed i item :: removals (items.eraseIdx i) positions := by
  have hrest : removals (items.eraseIdx i) positions = removals items positions := by
    rw [removals, removals]
    apply List.filterMap_congr
    intro j hj
    rw [List.getElem?_eraseIdx_of_lt (h j (List.mem_reverse.1 hj))]
  rw [hrest, removals, removals, List.reverse_append]
  simp [hitem]

/-- Removing from the highest position down leaves the items at the other positions, and every removal
tells the item that goes. -/
theorem replay?_removals {items : List α} {positions : List Nat} (hsorted : positions.Pairwise (· < ·))
    (hlt : ∀ i ∈ positions, i < items.length) :
    replay? items (removals items positions) = some (without items positions) ∧
      TellsRemoved items (removals items positions) := by
  induction positions using List.reverseRecOn generalizing items with
  | nil => exact ⟨by simp [removals], trivial⟩
  | append_singleton rest i ih =>
      have hi : i < items.length := hlt i (List.mem_append_right _ List.mem_cons_self)
      have hbelow : ∀ j ∈ rest, j < i := fun j hj =>
        (List.pairwise_append.1 hsorted).2.2 j hj i List.mem_cons_self
      have hitem : items[i]? = some items[i] := List.getElem?_eq_getElem hi
      have hafter : ListChange.after? items (.removed i items[i]) = some (items.eraseIdx i) := by
        simp [ListChange.after?, hi]
      obtain ⟨hreplay, htells⟩ := @ih (items.eraseIdx i) (List.pairwise_append.1 hsorted).1 fun j hj => by
        have := hbelow j hj
        rw [List.length_eraseIdx_of_lt hi]
        omega
      rw [removals_concat hitem hbelow]
      refine ⟨?_, ?_, ?_⟩
      · rw [ListChange.replay?_cons, hafter, ← without_concat hi hbelow]
        exact hreplay
      · intro index item hc
        cases hc
        exact hitem
      · intro now hnow
        rw [hafter, Option.some.injEq] at hnow
        exact hnow ▸ htells

/-- A part of a list is split where an item stands that comes only once. -/
theorem sublist_of_append_cons {before after first second : List α} {item : α}
    (h : (first ++ item :: second).Sublist (before ++ item :: after))
    (hdistinct : (before ++ item :: after).Nodup) : first.Sublist before ∧ second.Sublist after := by
  induction before generalizing first with
  | nil =>
      have hitem : item ∉ after := (List.nodup_cons.1 hdistinct).1
      cases first with
      | nil => exact ⟨List.Sublist.refl _, List.cons_sublist_cons.1 h⟩
      | cons f rest =>
          have htail := List.Sublist.tail h
          exact absurd (htail.subset (by simp)) hitem
  | cons b before ih =>
      obtain ⟨hb, hdistinct⟩ := List.nodup_cons.1 hdistinct
      cases first with
      | nil =>
          cases h with
          | cons _ h =>
              obtain ⟨-, hsecond⟩ := @ih [] h hdistinct
              exact ⟨List.nil_sublist _, hsecond⟩
          | cons_cons => exact absurd (by simp) hb
      | cons f first =>
          cases h with
          | cons _ h =>
              obtain ⟨hfirst, hsecond⟩ := ih h hdistinct
              exact ⟨hfirst.cons _, hsecond⟩
          | cons_cons _ h =>
              obtain ⟨hfirst, hsecond⟩ := ih h hdistinct
              exact ⟨hfirst.cons_cons _, hsecond⟩

variable [DecidableEq α]

/-- Where an item is put that comes behind the settled ones. -/
def placeAfter (previous : Option α) (others : List α) : Nat :=
  match previous with
  | some p => if p ∈ others then others.idxOf p + 1 else 0
  | none => 0

/-- Put there, the item is in order behind the settled ones and before those that stand still. -/
theorem sublist_insertIdx_placeAfter {done still others : List α} {item : α} (hdistinct : others.Nodup)
    (h : (done ++ still).Sublist others) :
    placeAfter done.getLast? others ≤ others.length ∧
      (done ++ item :: still).Sublist (others.insertIdx (placeAfter done.getLast? others) item) := by
  induction done using List.reverseRecOn with
  | nil => exact ⟨Nat.zero_le _, h.cons_cons item⟩
  | append_singleton done p _ =>
      have hp : p ∈ others := h.subset (by simp)
      obtain ⟨before, after, rfl, hbefore⟩ := List.eq_append_cons_of_mem hp
      have hindex : (before ++ p :: after).idxOf p = before.length := by
        rw [List.idxOf_append, if_neg hbefore]
        simp
      have hplace : placeAfter (done ++ [p]).getLast? (before ++ p :: after) = (before ++ [p]).length := by
        rw [List.getLast?_concat, placeAfter, if_pos hp, hindex]
        simp
      rw [List.append_assoc, List.singleton_append] at h
      obtain ⟨hdone, hstill⟩ := sublist_of_append_cons h hdistinct
      rw [hplace, List.append_cons before p after, insertIdx_append_length]
      exact ⟨by simp, (hdone.append (List.Sublist.refl [p])).append (hstill.cons_cons item)⟩

theorem movesFrom_still (items : List α) (previous : Option α) (k : Kept α)
    (rest : List (Kept α × Bool)) :
    movesFrom items previous ((k, true) :: rest) = movesFrom items (some k.item) rest := rfl

theorem movesFrom_move (items : List α) (previous : Option α) (k : Kept α)
    (rest : List (Kept α × Bool)) :
    movesFrom items previous ((k, false) :: rest) =
      let target := placeAfter previous (items.erase k.item)
      let later := movesFrom ((items.erase k.item).insertIdx target k.item) (some k.item) rest
      (.moved (items.idxOf k.item) target :: later.1, later.2) := by
  rw [List.erase_eq_eraseIdx_of_idxOf rfl]
  rfl

/-- There is one move for every item that does not stand still, and nothing else. -/
theorem movesFrom_eq_map (items : List α) (previous : Option α) (marked : List (Kept α × Bool)) :
    ∃ moves : List (Nat × Nat), (movesFrom items previous marked).1 = moves.map (fun m => .moved m.1 m.2) ∧
      moves.length = (marked.filter fun m => !m.2).length := by
  induction marked generalizing items previous with
  | nil => exact ⟨[], rfl, rfl⟩
  | cons m rest ih =>
      obtain ⟨k, stands⟩ := m
      cases stands with
      | true => simpa [movesFrom_still] using ih items (some k.item)
      | false =>
          obtain ⟨moves, hmoves, hlength⟩ := ih ((items.erase k.item).insertIdx
            (placeAfter previous (items.erase k.item)) k.item) (some k.item)
          refine ⟨(items.idxOf k.item, placeAfter previous (items.erase k.item)) :: moves, ?_, ?_⟩
          · rw [movesFrom_move, List.map_cons, ← hmoves]
          · simp [hlength]

/-- The moves keep the items, and settle one after the other in the new order. -/
theorem replay?_movesFrom {items done : List α} {marked : List (Kept α × Bool)} (hdistinct : items.Nodup)
    (hmem : ∀ m ∈ marked, m.1.item ∈ items) (hnew : (done ++ marked.map (·.1.item)).Nodup)
    (hstill : (done ++ (marked.filter (·.2)).map (·.1.item)).Sublist items) :
    replay? items (movesFrom items done.getLast? marked).1 =
        some (movesFrom items done.getLast? marked).2 ∧
      (movesFrom items done.getLast? marked).2.Perm items ∧
      (done ++ marked.map (·.1.item)).Sublist (movesFrom items done.getLast? marked).2 := by
  induction marked generalizing items done with
  | nil => simpa [movesFrom] using hstill
  | cons m rest ih =>
      obtain ⟨k, stands⟩ := m
      have hnext : some k.item = (done ++ [k.item]).getLast? := by simp
      have hrest : ∀ m ∈ rest, m.1.item ∈ items := fun m hm => hmem m (List.mem_cons_of_mem _ hm)
      have hassoc : done ++ ((k, stands) :: rest).map (·.1.item) =
          done ++ [k.item] ++ rest.map (·.1.item) := by simp
      rw [hassoc] at hnew ⊢
      cases stands with
      | true =>
          rw [movesFrom_still, hnext]
          exact ih hdistinct hrest hnew (by simpa using hstill)
      | false =>
          have hk : k.item ∈ items := hmem _ List.mem_cons_self
          have hk' : k.item ∉ done ++ (rest.filter (·.2)).map (·.1.item) := by
            intro hin
            have hin' : k.item ∈ done ++ rest.map (·.1.item) :=
              (List.Sublist.append (List.Sublist.refl done)
                (List.filter_sublist.map (fun m : Kept α × Bool => m.1.item))).subset hin
            rw [List.append_assoc] at hnew
            exact (List.nodup_cons.1 (List.perm_middle.nodup_iff.1 hnew)).1 hin'
          have hothers : (done ++ (rest.filter (·.2)).map (·.1.item)).Sublist (items.erase k.item) := by
            have h := List.Sublist.erase k.item hstill
            rwa [List.filter_cons_of_neg (by simp), List.erase_of_not_mem hk'] at h
          obtain ⟨hplace, hsettled⟩ := @sublist_insertIdx_placeAfter _ _ _ _ _ k.item
            (hdistinct.erase _) hothers
          have hperm : ((items.erase k.item).insertIdx
              (placeAfter done.getLast? (items.erase k.item)) k.item).Perm items :=
            (List.perm_insertIdx _ _ hplace).trans (List.perm_cons_erase hk).symm
          have hafter : ListChange.after? items
              (.moved (items.idxOf k.item) (placeAfter done.getLast? (items.erase k.item))) =
              some ((items.erase k.item).insertIdx
                (placeAfter done.getLast? (items.erase k.item)) k.item) := by
            have hidx := List.idxOf_lt_length_of_mem hk
            rw [ListChange.after?, List.getElem?_eq_getElem hidx, List.getElem_idxOf hidx,
              ← List.erase_eq_eraseIdx_of_idxOf rfl]
            simp [hplace]
          obtain ⟨hreplay, hperm', hsub⟩ := @ih _ (done ++ [k.item])
            (hperm.nodup_iff.2 hdistinct) (fun m hm => hperm.mem_iff.2 (hrest m hm)) hnew
            (by simpa using hsettled)
          rw [movesFrom_move]
          rw [← hnext] at hreplay hperm' hsub
          refine ⟨?_, hperm'.trans hperm, hsub⟩
          rw [ListChange.replay?_cons, hafter]
          exact hreplay

end GraphClient.Live
