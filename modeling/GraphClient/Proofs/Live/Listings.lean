import GraphClient.Proofs.Live.Ownership
import GraphClient.Proofs.Live.Scripts

/-! Owners of objects that stand in several lists. Writing a list by hand may put an object into any number
of lists, and an object knows of one of them. A history of a heap is what lists were given, in order;
whatever the history, the owner of an object is the list that was given it last, if it still stands there
(`Heap.Given.owner_iff`). So the owner always holds the object. But an object that was given to a second list
and taken from it again has no owner, although it still stands in the first one (`Script.tracks_owners`). -/

namespace GraphClient.Live

/-- Contents that lists were given, in order. -/
abbrev Listings := List (ListId × List ObjectId)

/-- That of all lists that were given an object, the last one is `l`. -/
def LastGiven (gs : Listings) (x : ObjectId) (l : ListId) : Prop :=
  ∃ before items after, gs = before ++ (l, items) :: after ∧ x ∈ items ∧ ∀ e ∈ after, x ∉ e.2

theorem not_lastGiven_nil (x : ObjectId) (l : ListId) : ¬LastGiven [] x l := by
  rintro ⟨before, items, after, heq, -⟩
  cases before <;> cases heq

/-- Giving an object to a list makes that list the last one, and giving others to it changes nothing. -/
theorem lastGiven_concat {gs : Listings} {l k : ListId} {items : List ObjectId} {x : ObjectId} :
    LastGiven (gs ++ [(l, items)]) x k ↔ if x ∈ items then k = l else LastGiven gs x k := by
  constructor
  · rintro ⟨before, given, after, heq, hx, hafter⟩
    rcases List.eq_nil_or_concat after with rfl | ⟨later, last, rfl⟩
    · obtain ⟨-, hlast⟩ := List.append_inj' heq rfl
      cases hlast
      rw [if_pos hx]
    · rw [List.concat_eq_append, ← List.cons_append, ← List.append_assoc] at heq
      obtain ⟨rfl, hlast⟩ := List.append_inj' heq rfl
      cases hlast
      have hnot : x ∉ items := hafter (l, items) (by simp)
      rw [if_neg hnot]
      exact ⟨before, given, later, rfl, hx, fun e he => hafter e (by simp [he])⟩
  · split
    · rename_i hx
      rintro rfl
      exact ⟨gs, items, [], rfl, hx, List.forall_mem_nil _⟩
    · rename_i hx
      rintro ⟨before, given, after, rfl, hgiven, hafter⟩
      refine ⟨before, given, after ++ [(l, items)], by simp, hgiven, fun e he => ?_⟩
      rcases List.mem_append.1 he with he | he
      · exact hafter e he
      · rw [List.mem_singleton.1 he]
        exact hx

namespace Heap

section

variable {h : Heap} {x : ObjectId} {l k : ListId} {items : List ObjectId}

theorem owner_setItems_of_mem (hx : x ∈ items) :
    ((h.setItems k items).2.object x).owner = some l ↔ l = k := by
  rw [object_setItems, if_pos hx]
  exact Option.some_inj.trans eq_comm

/-- An object that a list is not given keeps its owner, unless that is the list. -/
theorem owner_setItems_of_not_mem (hx : x ∉ items)
    (hholds : (h.object x).owner = some k → x ∈ (h.list k).items) :
    ((h.setItems k items).2.object x).owner = some l ↔ (h.object x).owner = some l ∧ l ≠ k := by
  rw [object_setItems, if_neg hx]
  split
  · rename_i hlost
    rw [hlost.2]
    exact ⟨nofun, fun hand => absurd (Option.some.inj hand.1).symm hand.2⟩
  · rename_i hstays
    refine ⟨fun howner => ⟨howner, ?_⟩, And.left⟩
    rintro rfl
    exact hstays ⟨hholds howner, howner⟩

end

/-- That a heap comes of nothing, where lists were given these contents. -/
inductive Given : Listings → Heap → Prop
  | empty : Given [] .empty
  | newObject {gs : Listings} {h : Heap} (hg : Given gs h) (typeName : String) :
      Given gs (h.newObject typeName).2
  | newList {gs : Listings} {h : Heap} (hg : Given gs h) (elementType : String) (keyed : Bool) :
      Given gs (h.newList elementType keyed).2
  | write {gs : Listings} {h : Heap} (hg : Given gs h) (o : ObjectId) (field : String) (slot : Slot) :
      Given gs (h.write o field slot)
  | setItems {gs : Listings} {h : Heap} (hg : Given gs h) (l : ListId) (items : List ObjectId) :
      Given (gs ++ [(l, items)]) (h.setItems l items).2

namespace Given

variable {gs : Listings} {h : Heap} {x : ObjectId} {l : ListId}

/-- The owner of an object is the list that was given it last, if it still stands there. -/
theorem owner_iff (hg : Given gs h) : (h.object x).owner = some l ↔ x ∈ (h.list l).items ∧
    LastGiven gs x l := by
  induction hg generalizing l with
  | empty =>
      rw [object_of_not_hasObject (Nat.not_lt_zero _)]
      exact ⟨nofun, fun hand => absurd hand.2 (not_lastGiven_nil x l)⟩
  | @newObject gs h hg typeName ih =>
      rw [object_newObject, list_newObject]
      split
      · rename_i hx
        have hnone : (h.object x).owner = none := by
          rw [hx, object_of_not_hasObject h.not_hasObject_nextObject]
          rfl
        rw [← ih, hnone]
      · exact ih
  | newList hg elementType keyed ih =>
      rw [items_newList]
      exact ih
  | write hg o field slot ih =>
      rw [owner_write, list_write]
      exact ih
  | @setItems gs h hg k items ih =>
      rw [list_setItems, lastGiven_concat]
      by_cases hx : x ∈ items
      · rw [owner_setItems_of_mem hx, if_pos hx, iff_and_self]
        rintro rfl
        rwa [if_pos rfl]
      · -- here the object may leave the list, which matters only if that is its owner
        rw [owner_setItems_of_not_mem hx fun howner => (ih.1 howner).1, ih, if_neg hx]
        by_cases hl : l = k
        · rw [if_pos hl]
          exact iff_of_false (fun hand => hand.2 hl) fun hand => hx hand.1
        · rw [if_neg hl]
          exact and_iff_left hl

end Given

/-- What is kept of owners: the owner of an object holds it, and for an object that stands in one list
only, that list is its owner just if no other list was given the object later; otherwise it has none. -/
structure TracksOwners (h : Heap) : Prop where
  given : ∃ gs, Given gs h
  element : ∀ {x l}, (h.object x).owner = some l → x ∈ (h.list l).items
  sole : ∀ {gs x l}, Given gs h → (∀ k, x ∈ (h.list k).items ↔ k = l) →
    ((h.object x).owner = some l ↔ LastGiven gs x l) ∧ (¬LastGiven gs x l → (h.object x).owner = none)

theorem Given.tracksOwners {gs : Listings} {h : Heap} (hg : Given gs h) : h.TracksOwners where
  given := ⟨gs, hg⟩
  element howner := (hg.owner_iff.1 howner).1
  sole {gs x l} hg hsole := by
    have howner : (h.object x).owner = some l ↔ LastGiven gs x l :=
      hg.owner_iff.trans (and_iff_right ((hsole l).2 rfl))
    refine ⟨howner, fun hlast => ?_⟩
    cases hother : (h.object x).owner with
    | none => rfl
    | some k =>
        obtain rfl := (hsole k).1 (hg.owner_iff.1 hother).1
        exact absurd (howner.1 hother) hlast

/-- That a heap has a history that goes on from an earlier one. -/
def Continues (gs : Listings) (h : Heap) : Prop := ∃ more, Given (gs ++ more) h

namespace Continues

variable {gs : Listings} {h : Heap}

theorem refl (hg : Given gs h) : h.Continues gs := ⟨[], by rwa [List.append_nil]⟩

theorem newObject (hc : h.Continues gs) (typeName : String) : (h.newObject typeName).2.Continues gs :=
  hc.imp fun _ hg => hg.newObject typeName

theorem newList (hc : h.Continues gs) (elementType : String) (keyed : Bool) :
    (h.newList elementType keyed).2.Continues gs :=
  hc.imp fun _ hg => hg.newList elementType keyed

theorem write (hc : h.Continues gs) (o : ObjectId) (field : String) (slot : Slot) :
    (h.write o field slot).Continues gs :=
  hc.imp fun _ hg => hg.write o field slot

theorem setItems (hc : h.Continues gs) (l : ListId) (items : List ObjectId) :
    (h.setItems l items).2.Continues gs := by
  obtain ⟨more, hg⟩ := hc
  refine ⟨more ++ [(l, items)], ?_⟩
  rw [← List.append_assoc]
  exact hg.setItems l items

theorem pick (hc : h.Continues gs) (list : ObjectList) (byId : List (String × ObjectId)) (position : Nat)
    (concrete : String) (data : Json) : (Live.pick h list byId position concrete data).2.Continues gs := by
  cases hmatch : matchElement h list byId position concrete data with
  | some x =>
      rw [pick_of_match hmatch]
      exact hc
  | none =>
      rw [pick_of_no_match hmatch]
      exact hc.newObject concrete

end Continues

end Heap

open Heap (Continues)

variable {gs : Listings}

theorem Writes.continues {plans : Plans} {h h' : Heap} {g : Goal} {q : List Notification}
    (hw : Writes plans h g h' q) (hc : h.Continues gs) : h'.Continues gs := by
  induction hw with
  | halt => exact hc
  | object _ _ ih | skip _ _ ih | stop _ _ ih | keep _ _ _ ih | reuse _ _ _ ih => exact ih hc
  | next _ _ _ ihfield ihrest => exact ihrest (ihfield hc)
  | store => exact hc.write _ _ _
  | replace _ _ _ ih => exact ih ((hc.newObject _).write _ _ _)
  | attach _ _ _ ih => exact ih ((hc.newList _ _).write _ _ _)
  | stopEntry _ _ ih => exact ih (hc.pick _ _ _ _ _)
  | nextEntry _ _ _ ihentry ihrest => exact ihrest (ihentry (hc.pick _ _ _ _ _))
  | list _ ih => exact (ih hc).setItems _ _

section

variable {κ μ : Type} {c : Watched κ μ}

theorem Deed.continues_begin (hc : c.heap.Continues gs) (react : κ → Event → Script κ μ) (deed : Deed κ) :
    (deed.begin react c).1.heap.Continues gs := by
  have hstrike (s : Subscription) (answer : Bool × Watched κ μ) (hheap : answer.2.heap = c.heap) :
      (Client.strike s answer).heap.Continues gs := by
    unfold Client.strike
    split
    · exact hheap ▸ hc
    · exact hheap ▸ hc
  cases deed with
  | newObject typeName => exact hc.newObject typeName
  | newList elementType keyed => exact hc.newList elementType keyed
  | observe | write => exact hc
  | cancel s => exact hstrike s _ rfl
  | unobserve target s => exact hstrike s _ rfl
  | setList o field elementType keyed items =>
      simp only [Deed.begin]
      split
      · exact hc.setItems _ items
      · exact (hc.newList elementType keyed).setItems _ items
  | patch o data => exact (writes_patch c.plans o data c.heap).continues hc
  | reconcile l items => exact (writes_reconcile c.plans l items c.heap).continues hc

/-- One step of a run adds to the history. -/
theorem Moment.continues_next {m : Moment κ μ} (hg : Heap.Given gs m.client.heap) :
    m.next.client.heap.Continues gs := by
  have hc := Continues.refl hg
  obtain ⟨c, agenda⟩ := m
  cases agenda with
  | nil => exact hc
  | cons duty rest =>
      cases duty with
      | script p =>
          cases p with
          | done | remember | look => exact hc
          | act deed react next => exact deed.continues_begin hc react
      | call | notice => exact hc
      | store react o field slot =>
          simp only [Moment.next]
          split
          · exact hc.write o field slot
          · exact hc

theorem Script.exists_given (plans : Plans) (memory : μ) (p : Script κ μ) (n : Nat) :
    ∃ gs, Heap.Given gs (p.moment plans memory n).client.heap := by
  induction n with
  | zero => exact ⟨[], .empty⟩
  | succ n ih =>
      obtain ⟨gs, hg⟩ := ih
      rw [moment_succ]
      obtain ⟨more, hmore⟩ := Moment.continues_next hg
      exact ⟨_, hmore⟩

/-- **Owners of objects.** At every moment of every run, within callbacks too, the owner of an object
holds it, and the one list that holds an object is its owner just if it was the last one that was
given the object. The history that tells goes on from step to step. -/
theorem Script.tracks_owners (plans : Plans) (memory : μ) (p : Script κ μ) :
    (∃ n, p.moment plans memory n = ⟨p.run (.fresh plans memory), []⟩) ∧
      ∀ n, (p.moment plans memory n).client.heap.TracksOwners ∧
        ∀ gs, Heap.Given gs (p.moment plans memory n).client.heap →
          (p.moment plans memory (n + 1)).client.heap.Continues gs := by
  refine ⟨p.reaches_run plans memory, fun n => ⟨?_, fun gs hg => ?_⟩⟩
  · obtain ⟨gs, hg⟩ := p.exists_given plans memory n
    exact hg.tracksOwners
  · rw [moment_succ]
    exact Moment.continues_next hg

end

section Sample

/-- Puts a user into two lists of a query object and takes it out of the second one. -/
def detourScript : Script Unit Unit :=
  let set (field : String) (items : List ObjectId) (next : Script Unit Unit) : Script Unit Unit :=
    .act (.setList ⟨1⟩ field "User" true items) (fun _ _ => .done) next
  .act (.newObject "User") (fun _ _ => .done) (.act (.newObject "Query") (fun _ _ => .done)
    (set "a" [⟨0⟩] (set "b" [⟨0⟩] (set "b" [] .done))))

def detourHeap : Heap := (detourScript.moment (samplePlans []) () 20).client.heap

/-- The user stands in the first list and in no other one, and has no owner. -/
theorem not_owner_detour :
    (∀ k, ⟨0⟩ ∈ (detourHeap.list k).items ↔ k = ⟨0⟩) ∧ (detourHeap.object ⟨0⟩).owner = none := by
  refine ⟨fun k => ?_, by decide⟩
  have hsize : detourHeap.lists.size = 2 := by decide
  obtain ⟨_ | _ | k⟩ := k
  · exact iff_of_true (by decide) rfl
  · exact iff_of_false (by decide) (by decide)
  · have hnone : ¬detourHeap.HasList ⟨k + 2⟩ := by
      change ¬k + 2 < detourHeap.lists.size
      omega
    rw [Heap.items_of_not_hasList hnone]
    exact iff_of_false List.not_mem_nil (by simp)

end Sample

end GraphClient.Live
