import GraphClient.Proofs.Live.Evolution
import GraphClient.Proofs.Live.Programs
import GraphClient.Proofs.Live.Reordering
import Mathlib.Logic.Equiv.Basic

/-! Other numbers for objects and lists. What is done with objects depends on which of them are the same,
never on their numbers, so the ways to reorder a list commute with every renaming, and so do the slots that
hold objects and the events that tell of them. -/

namespace GraphClient.Live

section Reordering

variable {α β : Type}

def ListChange.map (f : α → β) : ListChange α → ListChange β
  | inserted index item => inserted index (f item)
  | removed index item => removed index (f item)
  | moved source target => moved source target

/-- The item that a change brings or takes. -/
def ListChange.item? : ListChange α → Option α
  | inserted _ item | removed _ item => some item
  | moved _ _ => none

theorem ListChange.map_id (change : ListChange α) : change.map id = change := by cases change <;> rfl

theorem ListChange.map_map {γ : Type} (f : α → β) (g : β → γ) (change : ListChange α) :
    (change.map f).map g = change.map (g ∘ f) := by cases change <;> rfl

theorem ListChange.map_congr {f g : α → β} {change : ListChange α}
    (heq : ∀ x, change.item? = some x → f x = g x) : change.map f = change.map g := by
  cases change with
  | inserted index item => exact congrArg (inserted index) (heq item rfl)
  | removed index item => exact congrArg (removed index) (heq item rfl)
  | moved source target => rfl

def Kept.map (f : α → β) (k : Kept α) : Kept β := ⟨f k.item, k.source, k.target⟩

def Reordering.map (f : α → β) (r : Reordering α) : Reordering β :=
  ⟨r.inserted, r.removed, r.moved, r.changes.map (.map f)⟩

theorem removals_map (f : α → β) (old : List α) (positions : List Nat) :
    removals (old.map f) positions = (removals old positions).map (.map f) := by
  rw [removals, removals, List.map_filterMap]
  apply List.filterMap_congr
  intro i _
  rw [List.getElem?_map, Option.map_map, Option.map_map]
  rfl

theorem insertions_map (f : α → β) (new : List α) (positions : List Nat) :
    insertions (new.map f) positions = (insertions new positions).map (.map f) := by
  rw [insertions, insertions, List.map_filterMap]
  apply List.filterMap_congr
  intro i _
  rw [List.getElem?_map, Option.map_map, Option.map_map]
  rfl

theorem without_map (f : α → β) (items : List α) (positions : List Nat) :
    without (items.map f) positions = (without items positions).map f := by
  rw [without, without, List.zipIdx_map, List.filter_map, List.map_map, List.map_map]
  rfl

variable [DecidableEq α] [DecidableEq β] {f : α → β}

theorem lastIndex?_map (hf : f.Injective) (item : α) (items : List α) :
    lastIndex? (f item) (items.map f) = lastIndex? item items := by
  induction items with
  | nil => rfl
  | cons a rest ih => simp only [List.map_cons, lastIndex?, ih, hf.eq_iff]

theorem keptFrom_map (hf : f.Injective) (old seen new : List α) (position : Nat) :
    keptFrom (old.map f) (seen.map f) position (new.map f) =
      (keptFrom old seen position new).map (.map f) := by
  induction new generalizing seen position with
  | nil => rfl
  | cons item rest ih =>
      have hlater := ih (item :: seen) (position + 1)
      rw [List.map_cons] at hlater
      simp only [List.map_cons, keptFrom, hlater, List.mem_map_of_injective hf, lastIndex?_map hf]
      split
      · rfl
      · cases lastIndex? item old <;> rfl

theorem kept_map (hf : f.Injective) (old new : List α) :
    kept (old.map f) (new.map f) = (kept old new).map (.map f) := keptFrom_map hf old [] new 0

theorem removedOf_map (hf : f.Injective) (old new : List α) :
    removedOf (old.map f) (new.map f) = removedOf old new := by
  rw [removedOf, kept_map hf, List.length_map, List.map_map]
  rfl

theorem insertedOf_map (hf : f.Injective) (old new : List α) :
    insertedOf (old.map f) (new.map f) = insertedOf old new := by
  rw [insertedOf, kept_map hf, List.length_map, List.map_map]
  rfl

theorem marked_map (hf : f.Injective) (old new : List α) :
    marked (old.map f) (new.map f) = (marked old new).map fun m => (m.1.map f, m.2) := by
  rw [marked, kept_map hf, List.zipIdx_map, List.map_map, List.map_map, marked, List.map_map]
  rfl

theorem idxOf_map (hf : f.Injective) (item : α) (items : List α) :
    (items.map f).idxOf (f item) = items.idxOf item := by
  induction items with
  | nil => rfl
  | cons a rest ih => simp only [List.map_cons, List.idxOf_cons, ih, beq_eq_decide, hf.eq_iff]

theorem placeAfter_map (hf : f.Injective) (previous : Option α) (others : List α) :
    placeAfter (previous.map f) (others.map f) = placeAfter previous others := by
  cases previous with
  | none => rfl
  | some p => simp only [Option.map_some, placeAfter, List.mem_map_of_injective hf, idxOf_map hf]

theorem movesFrom_map (hf : f.Injective) (items : List α) (previous : Option α)
    (marked : List (Kept α × Bool)) :
    movesFrom (items.map f) (previous.map f) (marked.map fun m => (m.1.map f, m.2)) =
      ((movesFrom items previous marked).1.map (.map f), (movesFrom items previous marked).2.map f) := by
  induction marked generalizing items previous with
  | nil => rfl
  | cons m rest ih =>
      obtain ⟨k, stands⟩ := m
      cases stands with
      | true => exact ih items (some k.item)
      | false =>
          have hlater := ih ((items.erase k.item).insertIdx (placeAfter previous (items.erase k.item)) k.item)
            (some k.item)
          have herase : (items.map f).erase (f k.item) = (items.erase k.item).map f :=
            (List.map_erase hf items).symm
          simp only [List.map_cons, movesFrom_move, Kept.map, herase, placeAfter_map hf, ← List.map_insertIdx,
            idxOf_map hf] at hlater ⊢
          rw [Option.map_some] at hlater
          rw [hlater]
          rfl

/-- **Reordering commutes with renaming.** -/
theorem reorder_map (hf : f.Injective) (old new : List α) :
    reorder (old.map f) (new.map f) = (reorder old new).map f := by
  have hmoves := movesFrom_map hf (without old (removedOf old new)) none (marked old new)
  rw [reorder_eq, reorder_eq, insertedOf_map hf, removedOf_map hf, marked_map hf,
    removals_map, insertions_map, without_map, Reordering.map, Reordering.mk.injEq]
  refine ⟨rfl, rfl, ?_, ?_⟩
  · rw [List.filter_map, List.map_map]
    rfl
  · rw [List.map_append, List.map_append]
    exact congrArg (_ ++ · ++ _) (congrArg Prod.fst hmoves)

/-- A change brings a new item or takes an old one. -/
theorem mem_of_mem_changes {old new : List α} {change : ListChange α} {x : α}
    (hchange : change ∈ (reorder old new).changes) (hx : change.item? = some x) : x ∈ old ∨ x ∈ new := by
  rw [reorder_eq] at hchange
  rcases List.mem_append.1 hchange with hchange | hinserted
  · rcases List.mem_append.1 hchange with hremoved | hmoved
    · obtain ⟨n, -, heq⟩ := List.mem_filterMap.1 hremoved
      obtain ⟨y, hy, rfl⟩ := Option.map_eq_some_iff.1 heq
      cases hx
      exact .inl (List.mem_of_getElem? hy)
    · obtain ⟨moves, heq, -⟩ := movesFrom_eq_map (without old (removedOf old new)) none (marked old new)
      rw [heq] at hmoved
      obtain ⟨m, -, rfl⟩ := List.mem_map.1 hmoved
      cases hx
  · obtain ⟨n, -, heq⟩ := List.mem_filterMap.1 hinserted
    obtain ⟨y, hy, rfl⟩ := Option.map_eq_some_iff.1 heq
    cases hx
    exact .inr (List.mem_of_getElem? hy)

end Reordering

/-- Other numbers for objects and lists. -/
structure Renaming where
  objects : Equiv.Perm ObjectId
  lists : Equiv.Perm ListId

namespace Renaming

/-- The same numbers. -/
def same : Renaming := ⟨.refl _, .refl _⟩

/-- One renaming after another. -/
def trans (ρ ρ' : Renaming) : Renaming := ⟨ρ.objects.trans ρ'.objects, ρ.lists.trans ρ'.lists⟩

/-- The renaming back. -/
def symm (ρ : Renaming) : Renaming := ⟨ρ.objects.symm, ρ.lists.symm⟩

theorem trans_symm (ρ : Renaming) : ρ.trans ρ.symm = same :=
  congrArg₂ Renaming.mk ρ.objects.self_trans_symm ρ.lists.self_trans_symm

end Renaming

variable {ρ ρ' : Renaming}

def Slot.rename (ρ : Renaming) : Slot → Slot
  | .null => .null
  | .scalar v => .scalar v
  | .scalars vs => .scalars vs
  | .object x => .object (ρ.objects x)
  | .list l => .list (ρ.lists l)

theorem Slot.rename_injective (ρ : Renaming) : (Slot.rename ρ).Injective := by
  intro s t heq
  cases s <;> cases t <;> simp_all [Slot.rename]

theorem Slot.rename_same (s : Slot) : s.rename .same = s := by cases s <;> rfl

theorem Slot.rename_of_plain {s : Slot} (hplain : s.Plain) (ρ : Renaming) : s.rename ρ = s := by
  cases s with
  | object x => exact hplain.elim
  | list l => exact hplain.elim
  | _ => rfl

def ObjectList.rename (ρ : Renaming) (list : ObjectList) : ObjectList :=
  { list with items := list.items.map ρ.objects }

/-- Elements with their ids, under other names. -/
def renameIds (ρ : Renaming) (byId : List (String × ObjectId)) : List (String × ObjectId) :=
  byId.map fun e => (e.1, ρ.objects e.2)

theorem lookup_renameIds (ρ : Renaming) (byId : List (String × ObjectId)) (id : String) :
    (renameIds ρ byId).lookup id = (byId.lookup id).map ρ.objects := Table.get?_map ρ.objects ⟨byId⟩ id

theorem afterEntry_renameIds (ρ : Renaming) (data : Json) (byId : List (String × ObjectId)) :
    afterEntry data (renameIds ρ byId) = renameIds ρ (afterEntry data byId) := by
  unfold afterEntry
  split
  · exact List.filter_map ..
  · rfl

def Notification.rename (ρ : Renaming) : Notification → Notification
  | field o name => field (ρ.objects o) name
  | list l changes => list (ρ.lists l) (changes.map (.map ρ.objects))

def Event.rename (ρ : Renaming) : Event → Event
  | field o name => field (ρ.objects o) name
  | list l change => list (ρ.lists l) (change.map ρ.objects)
  | data root changes => data (ρ.objects root) changes
  | error e => error e
  | completed => completed

theorem Event.rename_same (e : Event) : e.rename .same = e := by
  cases e with
  | list l change => exact congrArg (Event.list l) change.map_id
  | _ => rfl

theorem Event.rename_trans (ρ ρ' : Renaming) (e : Event) :
    (e.rename ρ).rename ρ' = e.rename (ρ.trans ρ') := by
  cases e with
  | list l change => exact congrArg (Event.list _) (change.map_map ..)
  | _ => rfl

def Told.rename {κ : Type} (ρ : Renaming) (t : Told κ) : Told κ := ⟨t.callback, t.event.rename ρ⟩

theorem Told.rename_same {κ : Type} : (Told.rename .same : Told κ → Told κ) = id :=
  funext fun t => congrArg (Told.mk t.callback) t.event.rename_same

theorem Told.rename_comp {κ : Type} (ρ ρ' : Renaming) :
    (Told.rename ρ' : Told κ → Told κ) ∘ Told.rename ρ = Told.rename (ρ.trans ρ') :=
  funext fun t => congrArg (Told.mk t.callback) (t.event.rename_trans ρ ρ')

/-- What is the same under two renamings is the same but for a renaming. -/
theorem Told.map_eq_rename {κ : Type} {told told' : List (Told κ)}
    (heq : told'.map (Told.rename ρ') = told.map (Told.rename ρ)) :
    told' = told.map (Told.rename (ρ.trans ρ'.symm)) := by
  have hback := congrArg (List.map (Told.rename ρ'.symm)) heq
  rwa [List.map_map, List.map_map, Told.rename_comp, Told.rename_comp, Renaming.trans_symm, Told.rename_same,
    List.map_id] at hback

def Handler.rename {κ : Type} (ρ : Renaming) (s : Handler κ) : Handler κ :=
  { s with root := s.root.map ρ.objects }

theorem Handler.rename_same {κ : Type} (s : Handler κ) : s.rename .same = s := by
  rw [Handler.rename, Renaming.same, Equiv.coe_refl, Option.map_id_fun]
  rfl

theorem Handler.rename_trans {κ : Type} (ρ ρ' : Renaming) (s : Handler κ) :
    (s.rename ρ).rename ρ' = s.rename (ρ.trans ρ') := by
  rw [Handler.rename, Handler.rename, Option.map_map]
  rfl

theorem Handler.eq_rename {κ : Type} {s s' : Handler κ} (heq : s'.rename ρ' = s.rename ρ) :
    s' = s.rename (ρ.trans ρ'.symm) := by
  have hback := congrArg (Handler.rename ρ'.symm) heq
  rwa [Handler.rename_trans, Handler.rename_trans, Renaming.trans_symm, Handler.rename_same] at hback

theorem Handler.rename_congr {κ : Type} {s : Handler κ} {ρ ρ' : Renaming}
    (heq : ∀ {r}, s.root = some r → ρ'.objects r = ρ.objects r) : s.rename ρ' = s.rename ρ := by
  rw [Handler.rename, Handler.rename]
  cases hroot : s.root with
  | none => rfl
  | some r => rw [Option.map_some, Option.map_some, heq hroot]

end GraphClient.Live
