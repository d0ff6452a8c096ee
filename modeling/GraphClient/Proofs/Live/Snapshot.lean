import GraphClient.Proofs.Live.Apart
import GraphClient.Proofs.Live.Merge

/-! Trees of objects. In a tidy heap every way down comes to an end, as numbers grow along it, so an object
has a tree that does not depend on how far down one is ready to go. The tree of an object is told by what
is below it, and stays while that does. -/

namespace GraphClient.Live

namespace Heap

/-- What is in a slot; `inner` gives the trees of objects. -/
def slotTree (h : Heap) (inner : ObjectId → Snapshot) : Slot → Snapshot
  | .null => .null
  | .scalar v => .scalar v
  | .scalars vs => .scalars vs
  | .object x => inner x
  | .list l => .list ((h.list l).items.map inner)

/-- The tree of an object down to some depth. -/
def treeWithin (h : Heap) : (depth : Nat) → ObjectId → Snapshot
  | 0, o => .blank (h.object o).typeName
  | depth + 1, o => .object (h.object o).typeName ((h.object o).fields.map (h.slotTree (h.treeWithin depth)))

/-- The tree of an object. No way down is longer than there are objects. -/
def snapshot (h : Heap) (o : ObjectId) : Snapshot := h.treeWithin h.objects.size o

/-- The trees in the fields of an object. -/
def fieldTrees (h : Heap) (o : ObjectId) : Table Snapshot := (h.object o).fields.map (h.slotTree h.snapshot)

variable {h h' : Heap} {o : ObjectId}

theorem slotTree_of_plain {s : Slot} (hplain : s.Plain) (inner : ObjectId → Snapshot) :
    h.slotTree inner s = .ofPlain s := by
  cases s with
  | object x => exact hplain.elim
  | list l => exact hplain.elim
  | _ => rfl

theorem exists_snapshot_eq (h : Heap) (o : ObjectId) :
    ∃ fields, h.snapshot o = .object (h.object o).typeName fields := by
  rw [snapshot]
  cases h.objects.size <;> exact ⟨_, rfl⟩

theorem get?_fieldTrees (h : Heap) (o : ObjectId) (name : String) :
    (h.fieldTrees o).get? name = ((h.object o).get? name).map (h.slotTree h.snapshot) := Table.get?_map ..

theorem slotTree_ne_null {s : Slot} (hne : s ≠ .null) : h.slotTree h.snapshot s ≠ .null := by
  cases s with
  | null => exact absurd rfl hne
  | object x =>
      obtain ⟨fields, heq⟩ := h.exists_snapshot_eq x
      rw [slotTree, heq]
      exact nofun
  | _ => exact nofun

theorem slotTree_congr {s : Slot} {f g : ObjectId → Snapshot}
    (hlist : ∀ l, s = .list l → h'.list l = h.list l)
    (heq : ∀ c ∈ h.slotObjects s, f c = g c) : h'.slotTree f s = h.slotTree g s := by
  cases s with
  | object x => exact heq x (List.mem_singleton_self x)
  | list l =>
      rw [slotTree, slotTree, hlist l rfl]
      congr 1
      exact List.map_congr_left heq
  | _ => rfl

namespace Tidy

/-- An entry of the fields is a slot. -/
theorem slot_of_mem (ht : h.Tidy) {e : String × Slot} (he : e ∈ (h.object o).fields.entries) :
    h.slot o e.1 = e.2 :=
  slot_of_get? (Table.get?_of_mem ht.names he)

/-- Below the objects there are, going further down shows no more. -/
theorem treeWithin_eq (ht : h.Tidy) (ho : h.HasObject o) {depth depth' : Nat}
    (hdepth : h.objects.size ≤ depth + o.number) (hdepth' : h.objects.size ≤ depth' + o.number) :
    h.treeWithin depth o = h.treeWithin depth' o := by
  have hlt : o.number < h.objects.size := ho
  induction depth generalizing depth' o with
  | zero => omega
  | succ depth ih =>
      cases depth' with
      | zero => omega
      | succ depth' =>
          rw [treeWithin, treeWithin]
          congr 1
          apply Table.map_congr
          intro e he
          apply slotTree_congr (fun _ _ => rfl)
          intro c hc
          have hchild : h.Child o c := ⟨e.1, by rwa [ht.slot_of_mem he]⟩
          have hless := ht.lt_of_child hchild
          exact ih (ht.hasObject_of_child hchild) (by omega) (by omega) (ht.hasObject_of_child hchild)

/-- **Trees unfold.** The tree of an object is its type with the trees in its fields. -/
theorem snapshot_eq (ht : h.Tidy) (ho : h.HasObject o) :
    h.snapshot o = .object (h.object o).typeName (h.fieldTrees o) := by
  have hdepth : h.snapshot o = h.treeWithin (h.objects.size + 1) o :=
    ht.treeWithin_eq ho (by omega) (by omega)
  rw [hdepth, treeWithin]
  rfl

end Tidy

theorem Evolves.size_le (he : h.Evolves h') : h.objects.size ≤ h'.objects.size := by
  by_contra hlt
  exact Nat.lt_irrefl _ (he.objects (x := ⟨h'.objects.size⟩) (Nat.lt_of_not_le hlt))

theorem treeWithin_of_same (hs : h.Same h' o) (ht : h.Tidy) (depth : Nat) :
    h'.treeWithin depth o = h.treeWithin depth o := by
  induction depth generalizing o with
  | zero => rw [treeWithin, treeWithin, hs.typeName .refl]
  | succ depth ih =>
      rw [treeWithin, treeWithin, hs.typeName .refl, hs.fields .refl]
      congr 1
      apply Table.map_congr
      intro e he
      have hslot := ht.slot_of_mem he
      apply slotTree_congr
      · intro l hl
        exact hs.list .refl (hslot.trans hl)
      · intro c hc
        exact ih (hs.of_below (.single ⟨e.1, by rwa [hslot]⟩))

/-- The tree of an object stays with what is below it. -/
theorem Same.snapshot (hs : h.Same h' o) (ht : h.Tidy) (ho : h.HasObject o)
    (hsize : h.objects.size ≤ h'.objects.size) : h'.snapshot o = h.snapshot o := by
  have hsame := treeWithin_of_same hs ht h'.objects.size
  rw [Heap.snapshot, hsame]
  exact ht.treeWithin_eq ho (by omega) (by omega)

theorem snapshot_newObject (ht : h.Tidy) (typeName : String) :
    (h.newObject typeName).2.snapshot h.nextObject = .blank typeName := by
  have hnew : (h.newObject typeName).2.HasObject h.nextObject := by
    rw [HasObject, size_newObject]
    exact Nat.lt_succ_self _
  rw [(ht.newObject typeName).snapshot_eq hnew, fieldTrees, object_newObject, if_pos rfl]
  rfl

end Heap

end GraphClient.Live
