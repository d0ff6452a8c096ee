import GraphClient.Live.Increasing

/-! From the old contents of a list to the new ones by removals, moves and insertions. Items that stay
are paired first, then as few of them as possible are moved: those of a longest increasing part of the
old positions stand still. Told in order, every change gives positions in the list as it is at that
time. -/

namespace GraphClient.Live

variable {α : Type}

/-- A change of a list. -/
inductive ListChange (α : Type)
  | inserted (index : Nat) (item : α)
  | removed (index : Nat) (item : α)
  | moved (source target : Nat)
  deriving DecidableEq, Repr

namespace ListChange

/-- The list after a change; nothing if there is no such place in the list. -/
def after? (items : List α) : ListChange α → Option (List α)
  | inserted index item => if index ≤ items.length then some (items.insertIdx index item) else none
  | removed index _ => if index < items.length then some (items.eraseIdx index) else none
  | moved source target => do
      let item ← items[source]?
      let others := items.eraseIdx source
      if target ≤ others.length then some (others.insertIdx target item) else none

/-- The list after several changes. -/
def replay? (items : List α) (changes : List (ListChange α)) : Option (List α) :=
  changes.foldlM after? items

end ListChange

/-- Where an item stands last in a list. -/
def lastIndex? [DecidableEq α] (item : α) : List α → Option Nat
  | [] => none
  | a :: rest =>
      match lastIndex? item rest with
      | some i => some (i + 1)
      | none => if a = item then some 0 else none

/-- An item that stays, with its old and its new position. -/
structure Kept (α : Type) where
  item : α
  source : Nat
  target : Nat
  deriving DecidableEq, Repr

/-- The items that stay, of new items from a position on; those in `seen` are no longer to be had. -/
def keptFrom [DecidableEq α] (old seen : List α) (position : Nat) : List α → List (Kept α)
  | [] => []
  | item :: rest =>
      let later := keptFrom old (item :: seen) (position + 1) rest
      if item ∈ seen then later
      else match lastIndex? item old with
        | some source => ⟨item, source, position⟩ :: later
        | none => later

/-- The items that stay, in their new order. Of an item that is there several times, the last of the old
ones stays and becomes the first of the new ones. -/
def kept [DecidableEq α] (old new : List α) : List (Kept α) := keptFrom old [] 0 new

/-- How a list changes. -/
structure Reordering (α : Type) where
  /-- New positions of new items. -/
  inserted : List Nat
  /-- Old positions of items that go. -/
  removed : List Nat
  /-- Old and new positions of items that stay but have to be moved. -/
  moved : List (Nat × Nat)
  /-- What happens, step by step. -/
  changes : List (ListChange α)
  deriving DecidableEq, Repr

/-- Takes items away from the highest position down. -/
def removals (old : List α) (positions : List Nat) : List (ListChange α) :=
  positions.reverse.filterMap fun i => old[i]?.map (.removed i)

/-- The items without those at some positions. -/
def without (items : List α) (positions : List Nat) : List α :=
  (items.zipIdx.filter fun e => e.2 ∉ positions).map (·.1)

/-- Moves items that do not stand still right behind the one before them, in the new order; `items` is
the list so far. -/
def movesFrom [DecidableEq α] (items : List α) (previous : Option α) :
    List (Kept α × Bool) → List (ListChange α) × List α
  | [] => ([], items)
  | (k, true) :: rest => movesFrom items (some k.item) rest
  | (k, false) :: rest =>
      let source := items.idxOf k.item
      let others := items.eraseIdx source
      let target := match previous with
        | some p => if p ∈ others then others.idxOf p + 1 else 0
        | none => 0
      let (changes, done) := movesFrom (others.insertIdx target k.item) (some k.item) rest
      (.moved source target :: changes, done)

/-- Puts new items into their places from the lowest position up. -/
def insertions (new : List α) (positions : List Nat) : List (ListChange α) :=
  positions.filterMap fun i => new[i]?.map (.inserted i)

/-- What makes the new contents of a list out of the old ones. -/
def reorder [DecidableEq α] (old new : List α) : Reordering α :=
  let stay := kept old new
  let inserted := (List.range new.length).filter fun i => i ∉ stay.map (·.target)
  let removed := (List.range old.length).filter fun i => i ∉ stay.map (·.source)
  let still := longestIncreasing (stay.map (·.source))
  let marked := stay.zipIdx.map fun e => (e.1, decide (e.2 ∈ still))
  let moves := movesFrom (without old removed) none marked
  ⟨inserted, removed, (marked.filter fun m => !m.2).map fun m => (m.1.source, m.1.target),
    removals old removed ++ moves.1 ++ insertions new inserted⟩

end GraphClient.Live
