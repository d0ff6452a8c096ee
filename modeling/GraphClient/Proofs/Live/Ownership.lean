import GraphClient.Proofs.Live.Plans

/-! Groves. Whoever makes objects and writes them with data, in any order and however often that fails, has
a tree below each object that was made: nothing stands at two places, and nothing of one tree is in another.
The owner of an object is told by the lists and tells them: it is the list in which the object stands
(`forest_of_grows`). So an object that a list lost has no owner from then on, as no other list takes it. -/

namespace GraphClient.Live

namespace Heap

/-- That an object stands in the list that owns it. -/
def Owned (h : Heap) : Prop := ∀ x l, (h.object x).owner = some l → x ∈ (h.list l).items

namespace Owned

variable {h h' : Heap}

theorem empty : Heap.empty.Owned := by
  intro x l howner
  rw [object_of_not_hasObject (Nat.not_lt_zero _)] at howner
  cases howner

theorem newObject (ho : h.Owned) (typeName : String) : (h.newObject typeName).2.Owned := by
  intro x l howner
  rw [object_newObject] at howner
  split at howner
  · cases howner
  · exact ho x l howner

theorem newList (ho : h.Owned) (elementType : String) (keyed : Bool) :
    (h.newList elementType keyed).2.Owned := by
  intro x l howner
  rw [items_newList]
  exact ho x l howner

theorem write (ho : h.Owned) (o : ObjectId) (field : String) (s : Slot) : (h.write o field s).Owned := by
  intro x l howner
  rw [owner_write] at howner
  rw [list_write]
  exact ho x l howner

/-- What a list gets is owned by it, and what it loses is owned by none. -/
theorem setItems (ho : h.Owned) (l : ListId) (items : List ObjectId) : (h.setItems l items).2.Owned := by
  intro x k howner
  rw [object_setItems] at howner
  rw [list_setItems]
  split at howner
  · rename_i hx
    cases howner
    rwa [if_pos rfl]
  · rename_i hx
    split at howner
    · cases howner
    · rename_i hlost
      have hold := ho x k howner
      split
      · rename_i hk
        subst hk
        exact absurd ⟨hold, howner⟩ hlost
      · exact hold

theorem pick (ho : h.Owned) (list : ObjectList) (byId : List (String × ObjectId))
    (position : Nat) (concrete : String)
    (data : Json) : (Live.pick h list byId position concrete data).2.Owned := by
  cases hmatch : matchElement h list byId position concrete data with
  | some x =>
      rw [pick_of_match hmatch]
      exact ho
  | none =>
      rw [pick_of_no_match hmatch]
      exact ho.newObject concrete

end Owned

end Heap

theorem Writes.owned {plans : Plans} {h h' : Heap} {g : Goal} {q : List Notification}
    (hw : Writes plans h g h' q) (ho : h.Owned) : h'.Owned := by
  induction hw with
  | halt => exact ho
  | object _ _ ih | skip _ _ ih | stop _ _ ih | keep _ _ _ ih | reuse _ _ _ ih => exact ih ho
  | next _ _ _ ihfield ihrest => exact ihrest (ihfield ho)
  | store => exact ho.write _ _ _
  | replace _ _ _ ih => exact ih ((ho.newObject _).write _ _ _)
  | attach _ _ _ ih => exact ih ((ho.newList _ _).write _ _ _)
  | stopEntry _ _ ih => exact ih (ho.pick _ _ _ _ _)
  | nextEntry _ _ _ ihentry ihrest => exact ihrest (ihentry (ho.pick _ _ _ _ _))
  | list _ ih => exact (ih ho).setItems _ _

theorem Reached.owned {plans : Plans} {h : Heap} (hr : Reached plans h) : h.Owned := by
  induction hr with
  | empty => exact .empty
  | newObject typeName _ ih => exact ih.newObject typeName
  | @patch h o data _ _ ih => exact (writes_patch plans o data h).owned ih
  | @reconcile h l items _ _ ih => exact (writes_reconcile plans l items h).owned ih

/-- Where an object may stand. -/
inductive Place
  | field (o : ObjectId) (name : String)
  | item (l : ListId) (index : Nat)

/-- That an object stands at a place. -/
def Place.Has (h : Heap) (x : ObjectId) : Place → Prop
  | field o name => h.slot o name = .object x
  | item l index => (h.list l).items[index]? = some x

variable {h : Heap}

theorem Heap.Tidy.place_unique (ht : h.Tidy) {x : ObjectId} {p p' : Place} (hp : p.Has h x)
    (hp' : p'.Has h x) :
    p = p' := by
  cases p with
  | field o name =>
      cases p' with
      | field o' name' =>
          obtain ⟨rfl, rfl⟩ := ht.objectOnce hp hp'
          rfl
      | item l index => exact absurd (List.mem_of_getElem? hp') (ht.apart hp)
  | item l index =>
      cases p' with
      | field o name => exact absurd (List.mem_of_getElem? hp) (ht.apart hp')
      | item l' index' =>
          obtain rfl := ht.itemOnce (List.mem_of_getElem? hp) (List.mem_of_getElem? hp')
          have hlt : index < (h.list l).items.length := (List.getElem?_eq_some_iff.1 hp).1
          obtain rfl := (List.getElem?_inj hlt ht.nodup).1 (hp.trans hp'.symm)
          rfl

theorem Heap.Loose.no_place {x : ObjectId} (hx : h.Loose x) (p : Place) : ¬p.Has h x := by
  cases p with
  | field o name => exact hx.slot o name
  | item l index => exact fun hp => hx.item l (List.mem_of_getElem? hp)

/-- Objects that were made, and what came of writing them. -/
structure Grove where
  roots : List ObjectId
  heap : Heap

/-- Whoever has a grove makes one more object, or writes an object or a list of it. -/
inductive Grove.Step (plans : Plans) (g : Grove) : Grove → Prop
  | root (typeName : String) :
      Step plans g ⟨g.roots ++ [(g.heap.newObject typeName).1], (g.heap.newObject typeName).2⟩
  | patch {o : ObjectId} (data : Json) (ho : g.heap.HasObject o) :
      Step plans g ⟨g.roots, (outcome (patch plans data o) g.heap).2.1⟩
  | reconcile {l : ListId} (items : List Json) (hl : g.heap.HasList l) :
      Step plans g ⟨g.roots, (outcome (reconcile plans l items) g.heap).2.1⟩

def Grove.empty : Grove := ⟨[], .empty⟩

/-- That a grove comes of another one. -/
def Grove.Grows (plans : Plans) : Grove → Grove → Prop := Relation.ReflTransGen (Grove.Step plans)

/-- That trees stand side by side in a grove, one below each root. -/
structure Grove.Forest (g : Grove) : Prop where
  place : ∀ {x : ObjectId} {p p' : Place}, p.Has g.heap x → p'.Has g.heap x → p = p'
  list : ∀ {l o name o' name'}, g.heap.slot o name = .list l → g.heap.slot o' name' = .list l →
    o = o' ∧ name = name'
  acyclic : ∀ {x}, ¬Relation.TransGen g.heap.Child x x
  root : ∀ {r}, r ∈ g.roots → ∀ p : Place, ¬p.Has g.heap r
  apart : ∀ {r r' x}, r ∈ g.roots → r' ∈ g.roots → g.heap.Below r x → g.heap.Below r' x → r = r'
  apartList : ∀ {r r' x x' name name' l}, r ∈ g.roots → r' ∈ g.roots → g.heap.Below r x → g.heap.Below r' x' →
    g.heap.slot x name = .list l → g.heap.slot x' name' = .list l → r = r'
  owner : ∀ {x l}, (g.heap.object x).owner = some l ↔ x ∈ (g.heap.list l).items

/-- What is kept while a grove grows. -/
structure Grove.Sound (plans : Plans) (g : Grove) : Prop where
  heap : g.heap.Sound plans
  owned : g.heap.Owned
  made : ∀ r ∈ g.roots, g.heap.HasObject r
  loose : ∀ r ∈ g.roots, g.heap.Loose r

namespace Grove

variable {plans : Plans} {g g' : Grove}

theorem Step.evolves (hstep : Step plans g g') : g.heap.Evolves g'.heap := by
  cases hstep with
  | root typeName => exact .newObject _ _
  | patch data ho => exact (writes_patch _ _ _ _).evolves
  | reconcile items hl => exact (writes_reconcile _ _ _ _).evolves

theorem Grows.evolves (hgrows : Grows plans g g') : g.heap.Evolves g'.heap := by
  induction hgrows with
  | refl => exact .refl _
  | tail _ hstep ih => exact ih.trans hstep.evolves

theorem Sound.empty (plans : Plans) : Grove.empty.Sound plans :=
  ⟨.empty, .empty, fun _ hr => absurd hr List.not_mem_nil, fun _ hr => absurd hr List.not_mem_nil⟩

/-- The roots stay roots when what is below them is written. -/
theorem Sound.write (hg : g.Sound plans) {h : Heap} (he : g.heap.Evolves h)
    (hs : h.Sound plans) (ho : h.Owned) :
    Grove.Sound plans ⟨g.roots, h⟩ :=
  ⟨hs, ho, fun r hr => he.objects (hg.made r hr), fun r hr => he.loose (hg.made r hr) (hg.loose r hr)⟩

theorem Sound.step (hd : plans.Distinct) (hg : g.Sound plans) (hstep : Step plans g g') : g'.Sound plans := by
  cases hstep with
  | root typeName =>
      have he := Heap.Evolves.newObject g.heap typeName
      refine ⟨hg.heap.newObject typeName, hg.owned.newObject typeName, fun r hr => ?_, fun r hr => ?_⟩
      · rcases List.mem_append.1 hr with hr | hr
        · exact he.objects (hg.made r hr)
        · rw [List.mem_singleton.1 hr, Heap.HasObject, Heap.size_newObject]
          exact Nat.lt_succ_self _
      · rcases List.mem_append.1 hr with hr | hr
        · exact he.loose (hg.made r hr) (hg.loose r hr)
        · rw [List.mem_singleton.1 hr]
          exact hg.heap.tidy.loose_newObject typeName
  | @patch o data ho =>
      have hwrites := writes_patch plans o data g.heap
      exact hg.write hwrites.evolves (hwrites.sound_meets hd hg.heap ho).1 (hwrites.owned hg.owned)
  | @reconcile l items hl =>
      have hwrites := writes_reconcile plans l items g.heap
      exact hg.write hwrites.evolves (hwrites.sound_meets hd hg.heap hl).1 (hwrites.owned hg.owned)

theorem Sound.grows (hd : plans.Distinct) (hg : g.Sound plans) (hgrows : Grows plans g g') :
    g'.Sound plans := by
  induction hgrows with
  | refl => exact hg
  | tail _ hstep ih => exact ih.step hd hstep

/-- What is below a root is below no other one: the one would be below the
other, where nothing leads to it. -/
theorem Sound.root_unique (hg : g.Sound plans) {r r' x : ObjectId} (hr : r ∈ g.roots) (hr' : r' ∈ g.roots)
    (hx : g.heap.Below r x) (hx' : g.heap.Below r' x) : r = r' := by
  have htop : ∀ {a b}, b ∈ g.roots → g.heap.Below a b → a = b := by
    intro a b hb hbelow
    rcases Relation.ReflTransGen.cases_tail hbelow with heq | ⟨c, -, hchild⟩
    · exact heq.symm
    · obtain ⟨field, hslot | ⟨l, -, hitem⟩⟩ := Heap.child_iff.1 hchild
      · exact absurd hslot ((hg.loose b hb).slot c field)
      · exact absurd hitem ((hg.loose b hb).item l)
  rcases hg.heap.tidy.comparable hx hx' with hbelow | hbelow
  · exact htop hr' hbelow
  · exact (htop hr hbelow).symm

theorem Sound.forest (hg : g.Sound plans) : g.Forest where
  place := hg.heap.tidy.place_unique
  list := hg.heap.tidy.listOnce
  acyclic {x} hcycle := by
    obtain ⟨c, hchild, hbelow⟩ := Relation.TransGen.head'_iff.1 hcycle
    exact hg.heap.tidy.not_below_child hchild hbelow
  root hr := (hg.loose _ hr).no_place
  apart := hg.root_unique
  apartList hr hr' hx hx' hslot hslot' := by
    obtain ⟨rfl, -⟩ := hg.heap.tidy.listOnce hslot hslot'
    exact hg.root_unique hr hr' hx hx'
  owner := ⟨hg.owned _ _, hg.heap.tidy.owner⟩

end Grove

/-- **Groves.** Whatever grows out of nothing is a forest; and an object that was in a list
and is so no more has no owner. -/
theorem Grove.forest_of_grows {schema : Introspection.Schema} {graph : TypeGraph}
    {scalars : Registry} {plans : Plans}
    (hgraph : TypeGraph.build schema = .ok graph)
    (hplans : Plans.build graph scalars = .ok plans) {g g' : Grove}
    (hgrows : Grows plans .empty g) (hlater : Grows plans g g') :
    g.Forest ∧ g'.Forest ∧ ∀ {x l}, x ∈ (g.heap.list l).items → x ∉ (g'.heap.list l).items →
      (g'.heap.object x).owner = none := by
  have hd : plans.Distinct := Plans.distinct_of_build hgraph hplans
  have hg := (Sound.empty plans).grows hd hgrows
  have hg' := hg.grows hd hlater
  refine ⟨hg.forest, hg'.forest, fun {x l} hx hgone => ?_⟩
  cases howner : (g'.heap.object x).owner with
  | none => rfl
  | some k =>
      have hitem := hg'.forest.owner.1 howner
      -- a list has no old object that was not in it before
      have hold := hlater.evolves.item (hg.heap.tidy.item hx) hitem
      obtain rfl := hg.heap.tidy.itemOnce hold hx
      exact absurd hitem hgone

section Sample

/-- Users that are told by their ids. -/
def usersNamed (ids : List String) : Json :=
  .object [("users", .array (ids.map fun id => .object [("id", .string id)]))]

/-- A query object with two users. -/
def sampleGrove : Grove :=
  ⟨[⟨0⟩], (outcome (patch (samplePlans []) (usersNamed ["a", "b"]) ⟨0⟩) sampleHeap).2.1⟩

/-- The query object, when only the second user is left. -/
def prunedGrove : Grove :=
  ⟨[⟨0⟩], (outcome (patch (samplePlans []) (usersNamed ["b"]) ⟨0⟩) sampleGrove.heap).2.1⟩

/-- The first user has no owner any more, and the second one has still the list. -/
theorem forest_of_sampleGrove :
    Grove.Grows (samplePlans []) .empty sampleGrove ∧ Grove.Grows (samplePlans []) sampleGrove prunedGrove ∧
      sampleGrove.Forest ∧ prunedGrove.Forest ∧ (sampleGrove.heap.list ⟨0⟩).items = [⟨1⟩, ⟨2⟩] ∧
      (prunedGrove.heap.object ⟨1⟩).owner = none ∧ (prunedGrove.heap.object ⟨2⟩).owner = some ⟨0⟩ := by
  have hitems : (sampleGrove.heap.list ⟨0⟩).items = [⟨1⟩, ⟨2⟩] := by decide +kernel
  have hleft : (prunedGrove.heap.list ⟨0⟩).items = [⟨2⟩] := by decide +kernel
  have hroot : Grove.Grows (samplePlans []) .empty ⟨[⟨0⟩], sampleHeap⟩ := .single (.root "Query")
  have hgrows : Grove.Grows (samplePlans []) .empty sampleGrove := .tail hroot (.patch _ hasObject_sampleHeap)
  have hmade : sampleGrove.heap.HasObject ⟨0⟩ := (writes_patch _ _ _ _).evolves.objects hasObject_sampleHeap
  have hlater : Grove.Grows (samplePlans []) sampleGrove prunedGrove := .single (.patch _ hmade)
  obtain ⟨hforest, hforest', hnone⟩ :=
    Grove.forest_of_grows build_sampleSchema build_samplePlans hgrows hlater
  refine ⟨hgrows, hlater, hforest, hforest', hitems, @hnone ⟨1⟩ ⟨0⟩ ?_ ?_, hforest'.owner.2 ?_⟩
  · rw [hitems]
    exact List.mem_cons_self
  · rw [hleft]
    decide
  · rw [hleft]
    exact List.mem_singleton_self _

end Sample

end GraphClient.Live
