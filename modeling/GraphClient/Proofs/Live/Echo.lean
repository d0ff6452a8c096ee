import GraphClient.Proofs.Live.Mirror

/-! What is written into a part of a heap is written into its image as well. The same rules apply on both
sides, as each of them only looks at what is seen, and they end with the same result. -/

namespace GraphClient.Live

open Image.Shows

variable {plans : Plans} {i i₁ i₂ : Image} {h h' h₁ h₂ : Heap} {q q₁ q₂ : List Notification}

def Placed.rename (ρ : Renaming) (placed : Placed) : Placed where
  items := placed.items.map ρ.objects
  changed := placed.changed.map fun e => (ρ.objects e.1, e.2)
  error := placed.error

def Goal.rename (ρ : Renaming) : Goal → Goal
  | object o data result => object (ρ.objects o) data result
  | fields o typeName plans data result => fields (ρ.objects o) typeName plans data result
  | field o typeName plan data result => field (ρ.objects o) typeName plan data result
  | entries elements position byId rest targets placed =>
      entries (elements.rename ρ) position (renameIds ρ byId) rest
        (targets.map ρ.objects) (placed.rename ρ)
  | list l items result => list (ρ.lists l) items result

/-- That a goal is about a part. -/
def Goal.In (p : Part) : Goal → Prop
  | object o _ _ | fields o _ _ _ _ | field o _ _ _ _ => p.objects o
  | entries elements _ byId _ _ _ => (∀ x ∈ elements.items, p.objects x) ∧ ∀ e ∈ byId, p.objects e.2
  | list l _ _ => p.lists l

/-- That what entries are placed at is in a part. -/
def Goal.Lands (p : Part) : Goal → Prop
  | entries _ _ _ _ _ placed => ∀ x ∈ placed.items, p.objects x
  | object .. | fields .. | field .. | list .. => True

theorem Goal.Halts.rename {g : Goal} (hhalt : g.Halts plans h) (hs : i.Shows h) (hg : g.In i.part) :
    (g.rename i.names).Halts plans i.heap ∧ g.Lands i.part := by
  cases hhalt with
  | unknownType hplan =>
      rw [← hs.typeName hg] at hplan ⊢
      exact ⟨.unknownType hplan, trivial⟩
  | expectedObject hplan hdata =>
      rw [← hs.typeName hg] at hplan ⊢
      exact ⟨.expectedObject hplan hdata, trivial⟩
  | noField => exact ⟨.noField, trivial⟩
  | refused hdemand => exact ⟨.refused hdemand, trivial⟩
  | noEntry => exact ⟨.noEntry, nofun⟩
  | refusedEntry hconcrete => exact ⟨.refusedEntry hconcrete, nofun⟩

theorem lookup_map_names (ρ : Renaming) (changed : List (ObjectId × Bool)) (x : ObjectId) :
    (changed.map fun e => (ρ.objects e.1, e.2)).lookup (ρ.objects x) = changed.lookup x := by
  induction changed with
  | nil => rfl
  | cons e rest ih =>
      rw [List.map_cons, List.lookup_cons, List.lookup_cons, ih]
      simp only [beq_eq_decide, ρ.objects.injective.eq_iff]

theorem contents_rename (ρ : Renaming) (placed : Placed) (old : List ObjectId) :
    (placed.rename ρ).contents (old.map ρ.objects) = (placed.contents old).map ρ.objects := by
  rw [Placed.contents, Placed.contents, Placed.rename]
  cases placed.error with
  | none => rfl
  | some e =>
      dsimp only
      rw [List.map_append, List.filter_map]
      congr 2
      apply List.filter_congr
      intro x _
      simp only [Function.comp_apply, List.mem_map_of_injective ρ.objects.injective]

theorem result_rename (ρ : Renaming) (placed : Placed) (old : List ObjectId) (r : Reordering ObjectId) :
    (placed.rename ρ).result (old.map ρ.objects) (r.map ρ.objects) = placed.result old r := by
  have hcontents := contents_rename ρ placed old
  have herror : (placed.rename ρ).error = placed.error := rfl
  rw [Placed.result, Placed.result, hcontents, List.length_map, herror]
  cases placed.error with
  | some e => rfl
  | none =>
      dsimp only
      congr 2
      apply List.filter_congr
      intro n _
      rw [List.getElem?_map]
      cases (placed.contents old)[n]? with
      | none => rfl
      | some x =>
          simp only [Option.map_some, Option.any_some, List.mem_map_of_injective ρ.objects.injective,
            Placed.rename, lookup_map_names]

theorem Image.Grows.rename_list (hg : i.Grows h i₁ h₁) {list : ObjectList}
    (hitems : ∀ x ∈ list.items, i.part.objects x) : list.rename i₁.names = list.rename i.names := by
  rw [ObjectList.rename, ObjectList.rename, ObjectList.mk.injEq]
  exact ⟨rfl, rfl, List.map_congr_left fun x hx => hg.name (hitems x hx)⟩

theorem Image.Grows.renameIds (hg : i.Grows h i₁ h₁) {byId : List (String × ObjectId)}
    (hbyId : ∀ e ∈ byId, i.part.objects e.2) : Live.renameIds i₁.names byId = Live.renameIds i.names byId :=
  List.map_congr_left fun e he => congrArg (Prod.mk e.1) (hg.name (hbyId e he))

theorem Image.Grows.rename_notices (hg : i.Grows h i₁ h₁) (hq : ∀ n ∈ q, i.part.HoldsNotice n) :
    q.map (Notification.rename i₁.names) = q.map (Notification.rename i.names) := by
  apply List.map_congr_left
  intro n hn
  have hin := hq n hn
  cases n with
  | field o name => exact congrArg (Notification.field · name) (hg.name hin)
  | list l changes =>
      rw [Notification.rename, Notification.rename, Notification.list.injEq]
      exact ⟨hg.listName hin.1, List.map_congr_left fun change hchange =>
        ListChange.map_congr fun x hx => hg.name (hin.2 change hchange x hx)⟩

theorem Image.Grows.holdsNotice (hg : i.Grows h i₁ h₁) {n : Notification} (hn : i.part.HoldsNotice n) :
    i₁.part.HoldsNotice n := by
  cases n with
  | field o name => exact hg.part hn
  | list l changes => exact ⟨hg.partList hn.1, fun change hchange x hx =>
      hg.part (hn.2 change hchange x hx)⟩

namespace Image.Shows

variable {o : ObjectId}

theorem noted (hs : i.Shows h) (ho : i.part.objects o) (field : String) (s : Slot) :
    (noted h o field s).map (.rename i.names) = noted i.heap (i.names.objects o) field
      (s.rename i.names) := by
  rw [Live.noted, Live.noted, hs.differs ho]
  split <;> rfl

/-- The same with the names that the image has later. -/
theorem noted_grows (ho : i.part.objects o) (hg : i.Grows h i₁ h₁) {field : String} {s s' : Slot}
    (hdiffers : i.heap.differs (i.names.objects o) field s' = h.differs o field s) :
    (Live.noted h o field s).map (.rename i₁.names) = Live.noted i.heap (i₁.names.objects o) field s' := by
  rw [Live.noted, Live.noted, hg.name ho, hdiffers]
  split
  · exact congrArg ([Notification.field · field]) (hg.name ho)
  · rfl

theorem holdsNotice_noted (ho : i.part.objects o) (field : String) (s : Slot) :
    ∀ n ∈ Live.noted h o field s, i.part.HoldsNotice n := by
  intro n hn
  unfold Live.noted at hn
  split at hn
  · rw [List.mem_singleton.1 hn]
    exact ho
  · exact absurd hn List.not_mem_nil

theorem notedOrder_rename (ρ : Renaming) (l : ListId) (r : Reordering ObjectId) :
    (notedOrder l r).map (.rename ρ) = notedOrder (ρ.lists l) (r.map ρ.objects) := by
  rw [notedOrder, notedOrder, Reordering.map, List.isEmpty_map]
  split <;> rfl

theorem holdsNotice_notedOrder {l : ListId} (hl : i.part.lists l) {items : List ObjectId}
    (hold : ∀ x ∈ (h.list l).items, i.part.objects x) (hnew : ∀ x ∈ items, i.part.objects x) :
    ∀ n ∈ notedOrder l (h.setItems l items).1, i.part.HoldsNotice n := by
  intro n hn
  unfold notedOrder at hn
  split at hn
  · exact absurd hn List.not_mem_nil
  · rw [List.mem_singleton.1 hn]
    exact ⟨hl, fun change hchange x hx => (mem_of_mem_changes hchange hx).elim (hold x) (hnew x)⟩

/-- A new object in a field is seen as a new object in that field there. -/
theorem withObject (hs : i.Shows h) (ho : i.part.objects o) (field typeName : String) :
    ∃ i₁ : Image, i₁.Shows (h.withObject o field typeName) ∧ i.Grows h i₁ (h.withObject o field typeName) ∧
      i₁.part.objects h.nextObject ∧ i₁.names.objects h.nextObject = i.heap.nextObject ∧
      i₁.heap = i.heap.withObject (i.names.objects o) field typeName ∧
      i.heap.differs (i.names.objects o) field (.object i.heap.nextObject) =
        h.differs o field (.object h.nextObject) := by
  have hs₁ := hs.newObject typeName
  have hg₁ := hs.grows_newObject typeName
  have ho₁ := hg₁.part ho
  have hname : (i.newObject h typeName).names.objects o = i.names.objects o := hg₁.name ho
  have hnew := i.names_newObject h typeName
  have hslot : (Slot.object h.nextObject).rename (i.newObject h typeName).names = .object i.heap.nextObject :=
    congrArg Slot.object hnew
  have hs₂ := hs₁.write ho₁ (s := .object h.nextObject) (.inr rfl) field
  have hg₂ := hs₁.grows_write ho₁ field (.object h.nextObject)
  have hdiffers := hs₁.differs ho₁ field (.object h.nextObject)
  rw [hslot, hname] at hs₂ hg₂ hdiffers
  rw [Heap.differs_newObject] at hdiffers
  refine ⟨_, hs₂, hg₁.trans hg₂, .inr rfl, hnew, rfl, ?_⟩
  rw [← hdiffers]
  exact (Heap.differs_newObject ..).symm

/-- A new list in a field is seen as a new list in that field there. -/
theorem withList (hs : i.Shows h) (ho : i.part.objects o) (field elementType : String) (keyed : Bool) :
    ∃ i₁ : Image, i₁.Shows (h.withList o field elementType keyed) ∧
      i.Grows h i₁ (h.withList o field elementType keyed) ∧
      i₁.part.lists h.nextList ∧ i₁.names.lists h.nextList = i.heap.nextList ∧
      i₁.heap = i.heap.withList (i.names.objects o) field elementType keyed ∧
      i.heap.differs (i.names.objects o) field (.list i.heap.nextList) =
        h.differs o field (.list h.nextList) := by
  have hs₁ := hs.newList elementType keyed
  have hg₁ := hs.grows_newList elementType keyed
  have ho₁ := hg₁.part ho
  have hnew := i.names_newList h elementType keyed
  have hslot : (Slot.list h.nextList).rename (i.newList h elementType keyed).names = .list i.heap.nextList :=
    congrArg Slot.list hnew
  have hs₂ := hs₁.write ho₁ (s := .list h.nextList) (.inr rfl) field
  have hg₂ := hs₁.grows_write ho₁ field (.list h.nextList)
  have hdiffers := hs₁.differs ho₁ field (.list h.nextList)
  rw [hslot] at hs₂ hg₂ hdiffers
  exact ⟨_, hs₂, hg₁.trans hg₂, .inr rfl, hnew, rfl, hdiffers⟩

end Image.Shows

/-- That what is written into a part is written into its image, which is there afterwards. -/
structure Echoes (plans : Plans) (i : Image) (h : Heap) (g : Goal) (h₁ : Heap) (q : List Notification)
    (i₁ : Image) : Prop where
  shows : i₁.Shows h₁
  grows : i.Grows h i₁ h₁
  lands : g.Lands i₁.part
  notices : ∀ n ∈ q, i₁.part.HoldsNotice n
  writes : Writes plans i.heap (g.rename i₁.names) i₁.heap (q.map (.rename i₁.names))

/-- That what is written into a part of a heap is written into each image of the part. -/
def Echoed (plans : Plans) (h : Heap) (g : Goal) (h₁ : Heap) (q : List Notification) : Prop :=
  ∀ i : Image, i.Shows h → g.In i.part → ∃ i₁, Echoes plans i h g h₁ q i₁

theorem Image.Grows.holdsNotice_append (hg : i₁.Grows h i₂ h₁) (hq₁ : ∀ n ∈ q₁, i₁.part.HoldsNotice n)
    (hq₂ : ∀ n ∈ q₂, i₂.part.HoldsNotice n) : ∀ n ∈ q₁ ++ q₂, i₂.part.HoldsNotice n :=
  List.forall_mem_append.2 ⟨fun n hn => hg.holdsNotice (hq₁ n hn), hq₂⟩

namespace Echoed

variable {o x : ObjectId} {l : ListId} {typeName concrete element : String} {keyed : Bool} {field : FieldPlan}
  {fields : List FieldPlan} {data d : Json} {items : List Json} {result : Except PatchError (List String)}
  {arranged : Except PatchError Reconciliation}

theorem object {members : List (String × Json)} {plan : TypePlan}
    (hplan : plans.get? (h.object o).typeName = some plan)
    (hfields : Echoed plans h (.fields o (h.object o).typeName plan.fields (.object members) result) h' q) :
    Echoed plans h (.object o (.object members) result) h' q := by
  intro i hs hg
  obtain ⟨i₁, he⟩ := hfields i hs hg
  have ho : i₁.names.objects o = i.names.objects o := he.grows.name hg
  refine ⟨i₁, he.shows, he.grows, trivial, he.notices, ?_⟩
  have hwrites := he.writes
  rw [Goal.rename, ho, ← hs.typeName hg] at hwrites
  rw [Goal.rename, ho]
  exact .object (by rwa [hs.typeName hg]) hwrites

theorem next {changed : Bool} (hget : data.get? field.wireName = some d)
    (hfield : Echoed plans h (.field o typeName field d (.ok changed)) h₁ q₁)
    (hrest : Echoed plans h₁ (.fields o typeName fields data result) h₂ q₂) :
    Echoed plans h (.fields o typeName (field :: fields) data
      (result.map (consChanged field.wireName changed))) h₂ (q₁ ++ q₂) := by
  intro i hs hg
  obtain ⟨i₁, he⟩ := hfield i hs hg
  obtain ⟨i₂, he₂⟩ := hrest i₁ he.shows (he.grows.part hg)
  have ho : i₂.names.objects o = i₁.names.objects o := he₂.grows.name (he.grows.part hg)
  have hfield' := he.writes
  rw [Goal.rename, ← ho, ← he₂.grows.rename_notices he.notices] at hfield'
  refine ⟨i₂, he₂.shows, he.grows.trans he₂.grows, trivial,
    he₂.grows.holdsNotice_append he.notices he₂.notices, ?_⟩
  rw [List.map_append]
  exact .next hget hfield' he₂.writes

theorem store {slot : Slot} (hdemand : demand plans.graph typeName field data = .store slot) :
    Echoed plans h (.field o typeName field data (.ok (h.differs o field.wireName slot)))
      (h.write o field.wireName slot) (Live.noted h o field.wireName slot) := by
  intro i hs hg
  have hplain := plain_of_demand hdemand
  have hslot := slot.rename_of_plain hplain i.names
  have hholds : i.part.Holds slot := by
    cases slot <;> trivial
  have hs₁ := hs.write hg hholds field.wireName
  have hg₁ := hs.grows_write hg field.wireName slot
  have hdiffers := hs.differs hg field.wireName slot
  have hnoted := hs.noted hg field.wireName slot
  rw [hslot] at hs₁ hg₁ hdiffers hnoted
  refine ⟨_, hs₁, hg₁, trivial, holdsNotice_noted hg _ _, ?_⟩
  rw [Goal.rename, ← hdiffers]
  exact hnoted ▸ .store hdemand

theorem keep (hdemand : demand plans.graph typeName field data = .fill concrete)
    (hkept : h.kept? o field.wireName concrete data = some x)
    (hinner : Echoed plans h (.object x data result) h' q) :
    Echoed plans h (.field o typeName field data (result.map fun _ => false)) h' q := by
  intro i hs hg
  obtain ⟨i₁, he⟩ := hinner i hs (hs.holds_kept hg hkept)
  have hkept' := hs.kept? hg field.wireName concrete data
  rw [hkept, Option.map_some, ← he.grows.name hg, ← he.grows.name (hs.holds_kept hg hkept)] at hkept'
  exact ⟨i₁, he.shows, he.grows, trivial, he.notices, .keep hdemand hkept' he.writes⟩

theorem replace (hdemand : demand plans.graph typeName field data = .fill concrete)
    (hkept : h.kept? o field.wireName concrete data = none)
    (hinner : Echoed plans (h.withObject o field.wireName concrete) (.object h.nextObject data result) h' q) :
    Echoed plans h (.field o typeName field data
      (result.map fun _ => h.differs o field.wireName (.object h.nextObject))) h'
      (Live.noted h o field.wireName (.object h.nextObject) ++ q) := by
  intro i hs hg
  obtain ⟨i₁, hs₁, hg₁, hin, hnew, hheap, hdiffers⟩ := hs.withObject hg field.wireName concrete
  obtain ⟨i₂, he⟩ := hinner i₁ hs₁ hin
  have hkept' := hs.kept? hg field.wireName concrete data
  have hgrows := hg₁.trans he.grows
  have hwrites := he.writes
  rw [hkept, Option.map_none, ← hgrows.name hg] at hkept'
  rw [hheap, Goal.rename, he.grows.name hin, hnew, ← hgrows.name hg] at hwrites
  refine ⟨i₂, he.shows, hgrows, trivial, ?_, ?_⟩
  · exact List.forall_mem_append.2 ⟨holdsNotice_noted (hgrows.part hg) _ _, he.notices⟩
  · rw [List.map_append, noted_grows hg hgrows hdiffers, Goal.rename, ← hdiffers, ← hgrows.name hg]
    exact .replace hdemand hkept' hwrites

theorem reuse (hdemand : demand plans.graph typeName field data = .arrange element keyed items)
    (hlist : (h.object o).list? field.wireName = some l)
    (hinner : Echoed plans h (.list l items arranged) h' q) :
    Echoed plans h (.field o typeName field data (arranged.map fun _ => false)) h' q := by
  intro i hs hg
  have hl : i.part.lists l := by
    have hin := hs.holds_slot hg field.wireName
    rwa [Heap.list?_eq_some.1 hlist] at hin
  obtain ⟨i₁, he⟩ := hinner i hs hl
  have hlist' := hs.list? hg field.wireName
  rw [hlist, Option.map_some, ← he.grows.name hg, ← he.grows.listName hl] at hlist'
  exact ⟨i₁, he.shows, he.grows, trivial, he.notices, .reuse hdemand hlist' he.writes⟩

theorem attach (hdemand : demand plans.graph typeName field data = .arrange element keyed items)
    (hlist : (h.object o).list? field.wireName = none)
    (hinner : Echoed plans (h.withList o field.wireName element keyed)
      (.list h.nextList items arranged) h' q) :
    Echoed plans h (.field o typeName field data
      (arranged.map fun _ => h.differs o field.wireName (.list h.nextList))) h'
      (Live.noted h o field.wireName (.list h.nextList) ++ q) := by
  intro i hs hg
  obtain ⟨i₁, hs₁, hg₁, hin, hnew, hheap, hdiffers⟩ := hs.withList hg field.wireName element keyed
  obtain ⟨i₂, he⟩ := hinner i₁ hs₁ hin
  have hlist' := hs.list? hg field.wireName
  have hgrows := hg₁.trans he.grows
  have hwrites := he.writes
  rw [hlist, Option.map_none, ← hgrows.name hg] at hlist'
  rw [hheap, Goal.rename, he.grows.listName hin, hnew, ← hgrows.name hg] at hwrites
  refine ⟨i₂, he.shows, hgrows, trivial, ?_, ?_⟩
  · exact List.forall_mem_append.2 ⟨holdsNotice_noted (hgrows.part hg) _ _, he.notices⟩
  · rw [List.map_append, noted_grows hg hgrows hdiffers, Goal.rename, ← hdiffers, ← hgrows.name hg]
    exact .attach hdemand hlist' hwrites

variable {elements : ObjectList} {position : Nat} {byId : List (String × ObjectId)} {later : List Json}
  {targets : List ObjectId} {placed : Placed}

theorem stopEntry {e : PatchError}
    (hconcrete : concreteElement plans.graph elements.elementType data = .ok concrete)
    (hentry : Echoed plans (pick h elements byId position concrete data).2
      (.object (pick h elements byId position concrete data).1 data (.error e)) h' q) :
    Echoed plans h (.entries elements position byId (data :: later)
      [(pick h elements byId position concrete data).1] ⟨[], [], some e⟩) h' q := by
  rintro i hs ⟨hitems, hbyId⟩
  obtain ⟨i₁, hs₁, hg₁, hin, hpick⟩ := hs.pick hitems hbyId position concrete data
  obtain ⟨i₂, he⟩ := hentry i₁ hs₁ hin
  have hgrows := hg₁.trans he.grows
  have hname : i₂.names.objects (pick h elements byId position concrete data).1 =
      (pick i.heap (elements.rename i.names) (renameIds i.names byId) position concrete data).1 := by
    rw [hpick, he.grows.name hin]
  have hentry' := he.writes
  rw [Goal.rename, hname, show i₁.heap = _ from congrArg Prod.snd hpick.symm] at hentry'
  refine ⟨i₂, he.shows, hgrows, nofun, he.notices, ?_⟩
  rw [Goal.rename, hgrows.rename_list hitems, hgrows.renameIds hbyId, List.map_singleton, hname]
  exact .stopEntry hconcrete hentry'

theorem nextEntry {changes : List String}
    (hconcrete : concreteElement plans.graph elements.elementType data = .ok concrete)
    (hentry : Echoed plans (pick h elements byId position concrete data).2
      (.object (pick h elements byId position concrete data).1 data (.ok changes)) h₁ q₁)
    (hrest : Echoed plans h₁ (.entries elements (position + 1)
      (afterEntry data byId) later targets placed) h₂ q₂) :
    Echoed plans h (.entries elements position byId (data :: later)
      ((pick h elements byId position concrete data).1 :: targets)
      ⟨(pick h elements byId position concrete data).1 :: placed.items,
        placed.changed ++ [((pick h elements byId position concrete data).1, !changes.isEmpty)],
        placed.error⟩) h₂ (q₁ ++ q₂) := by
  rintro i hs ⟨hitems, hbyId⟩
  obtain ⟨i₁, hs₁, hg₁, hin, hpick⟩ := hs.pick hitems hbyId position concrete data
  obtain ⟨i₂, he⟩ := hentry i₁ hs₁ hin
  have hgrows := hg₁.trans he.grows
  obtain ⟨i₃, he₃⟩ := hrest i₂ he.shows ⟨fun x hx => hgrows.part (hitems x hx),
    fun e he => hgrows.part (hbyId e (mem_of_afterEntry he))⟩
  have hgrows₃ := hgrows.trans he₃.grows
  have hname : i₃.names.objects (pick h elements byId position concrete data).1 =
      (pick i.heap (elements.rename i.names) (renameIds i.names byId) position concrete data).1 := by
    rw [hpick, he₃.grows.name (he.grows.part hin), he.grows.name hin]
  have hentry' := he.writes
  rw [Goal.rename, ← he₃.grows.name (he.grows.part hin), hname,
    show i₁.heap = _ from congrArg Prod.snd hpick.symm, ← he₃.grows.rename_notices he.notices] at hentry'
  have hrest' := he₃.writes
  rw [Goal.rename, hgrows₃.rename_list hitems, ← afterEntry_renameIds, hgrows₃.renameIds hbyId] at hrest'
  refine ⟨i₃, he₃.shows, hgrows₃, ?_, he₃.grows.holdsNotice_append he.notices he₃.notices, ?_⟩
  · exact List.forall_mem_cons.2 ⟨he₃.grows.part (he.grows.part hin), he₃.lands⟩
  · rw [Goal.rename, hgrows₃.rename_list hitems, hgrows₃.renameIds hbyId, List.map_cons,
      hname, List.map_append, Placed.rename, List.map_cons, List.map_append, List.map_singleton, hname]
    refine .nextEntry ?_ hentry' hrest'
    exact hconcrete

theorem list
    (hentries : Echoed plans h (.entries (h.list l) 0 (elementIds h (h.list l)) items targets placed) h' q) :
    Echoed plans h
      (.list l items (placed.result (h.list l).items (h'.setItems l (placed.contents (h.list l).items)).1))
      (h'.setItems l (placed.contents (h.list l).items)).2
      (q ++ notedOrder l (h'.setItems l (placed.contents (h.list l).items)).1) := by
  intro i hs hg
  obtain ⟨i₁, he⟩ := hentries i hs ⟨hs.item hg, fun e he => hs.item hg e.2 (mem_of_elementIds he).2.1⟩
  have hg₁ : i₁.part.lists l := he.grows.partList hg
  have hcontents : ∀ x ∈ placed.contents (h.list l).items, i₁.part.objects x := fun x hx =>
    (mem_contents hx).elim (he.lands x) fun hold => he.grows.part (hs.item hg x hold)
  have hold : (i.heap.list (i.names.lists l)).items = (h.list l).items.map i₁.names.objects := by
    rw [hs.items hg]
    exact List.map_congr_left fun x hx => (he.grows.name (hs.item hg x hx)).symm
  have hs₂ := he.shows.setItems hg₁ hcontents
  have hg₂ := he.shows.grows_setItems hg₁ hcontents
  have hreordering := he.shows.reordering hg₁ (placed.contents (h.list l).items)
  have hentries' := he.writes
  rw [Goal.rename, he.grows.rename_list (hs.item hg), he.grows.renameIds fun e he => hs.item hg e.2
    (mem_of_elementIds he).2.1, ← hs.elementIds (hs.item hg), ← hs.list hg] at hentries'
  have hlist := Writes.list hentries'
  rw [hold, contents_rename, ← he.grows.listName hg, hreordering, result_rename] at hlist
  refine ⟨_, hs₂, he.grows.trans hg₂, trivial, ?_, ?_⟩
  · refine List.forall_mem_append.2 ⟨he.notices, ?_⟩
    exact holdsNotice_notedOrder hg₁ (he.shows.item hg₁) hcontents
  · rw [Goal.rename, List.map_append, notedOrder_rename]
    exact hlist

end Echoed

/-- **Writing is seen.** Whatever is written into a part of a heap, its image can be written just so. -/
theorem Writes.echo {g : Goal} (hw : Writes plans h g h₁ q) : Echoed plans h g h₁ q := by
  induction hw with
  | halt hhalt =>
      intro i hs hg
      obtain ⟨hhalt', hlands⟩ := hhalt.rename hs hg
      exact ⟨i, hs, .refl i _, hlands, nofun, .halt hhalt'⟩
  | object hplan _ ih => exact .object hplan ih
  | skip hget _ ih =>
      intro i hs hg
      obtain ⟨i₁, he⟩ := ih i hs hg
      exact ⟨i₁, he.shows, he.grows, trivial, he.notices, .skip hget he.writes⟩
  | stop hget _ ih =>
      intro i hs hg
      obtain ⟨i₁, he⟩ := ih i hs hg
      exact ⟨i₁, he.shows, he.grows, trivial, he.notices, .stop hget he.writes⟩
  | next hget _ _ ihfield ihrest => exact .next hget ihfield ihrest
  | store hdemand => exact .store hdemand
  | keep hdemand hkept _ ih => exact .keep hdemand hkept ih
  | replace hdemand hkept _ ih => exact .replace hdemand hkept ih
  | reuse hdemand hlist _ ih => exact .reuse hdemand hlist ih
  | attach hdemand hlist _ ih => exact .attach hdemand hlist ih
  | stopEntry hconcrete _ ih => exact .stopEntry hconcrete ih
  | nextEntry hconcrete _ _ ihentry ihrest => exact .nextEntry hconcrete ihentry ihrest
  | list _ ih => exact .list ih

end GraphClient.Live
