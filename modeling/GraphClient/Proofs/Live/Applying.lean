import GraphClient.Proofs.Live.Apart

/-! Which data goes into which objects. Writing data into an object writes parts of it into objects that are
below, as far as the writing gets before an error ends it (`Applies`). A field of an object is only written
if its name is a member of data for that object (`Writes.spares_applied`), and objects that data was for are
not lost: they are still where they can be found from the object that was written (`Writes.retains`). -/

namespace GraphClient.Live

/-- Something to be written, whatever comes of it. -/
inductive Task
  | object (o : ObjectId) (data : Json)
  | fields (o : ObjectId) (typeName : String) (fields : List FieldPlan) (data : Json)
  | field (o : ObjectId) (typeName : String) (field : FieldPlan) (data : Json)
  | entries (list : ObjectList) (position : Nat) (byId : List (String × ObjectId)) (rest : List Json)
  | list (l : ListId) (items : List Json)

def Goal.task : Goal → Task
  | .object o data _ => .object o data
  | .fields o typeName those data _ => .fields o typeName those data
  | .field o typeName plan data _ => .field o typeName plan data
  | .entries elements position byId rest _ _ => .entries elements position byId rest
  | .list l items _ => .list l items

/-- That data is written into an object in the course of a task. The rules are those of writing, one
for each place at which it goes further inside. -/
inductive Applies (plans : Plans) : Heap → Task → ObjectId → Json → Prop
  | self {h : Heap} {o : ObjectId} {data : Json} : Applies plans h (.object o data) o data
  | object {h : Heap} {o x : ObjectId} {members : List (String × Json)} {plan : TypePlan} {e : Json}
      (hplan : plans.get? (h.object o).typeName = some plan)
      (hfields : Applies plans h (.fields o (h.object o).typeName plan.fields (.object members)) x e) :
      Applies plans h (.object o (.object members)) x e
  | skip {h : Heap} {o x : ObjectId} {typeName : String} {field : FieldPlan}
      {rest : List FieldPlan} {data e : Json}
      (hget : data.get? field.wireName = none) (hrest : Applies plans h (.fields o typeName rest data) x e) :
      Applies plans h (.fields o typeName (field :: rest) data) x e
  | first {h : Heap} {o x : ObjectId} {typeName : String} {field : FieldPlan} {rest : List FieldPlan}
      {data d e : Json} (hget : data.get? field.wireName = some d)
      (hfield : Applies plans h (.field o typeName field d) x e) :
      Applies plans h (.fields o typeName (field :: rest) data) x e
  | next {h h₁ : Heap} {o x : ObjectId} {typeName : String} {field : FieldPlan} {rest : List FieldPlan}
      {data d e : Json} {changed : Bool} {q : List Notification} (hget : data.get? field.wireName = some d)
      (hfield : Writes plans h (.field o typeName field d (.ok changed)) h₁ q)
      (hrest : Applies plans h₁ (.fields o typeName rest data) x e) :
      Applies plans h (.fields o typeName (field :: rest) data) x e
  | keep {h : Heap} {o x y : ObjectId} {typeName concrete : String} {field : FieldPlan} {data e : Json}
      (hdemand : demand plans.graph typeName field data = .fill concrete)
      (hkept : h.kept? o field.wireName concrete data = some y)
      (hinner : Applies plans h (.object y data) x e) :
      Applies plans h (.field o typeName field data) x e
  | replace {h : Heap} {o x : ObjectId} {typeName concrete : String} {field : FieldPlan} {data e : Json}
      (hdemand : demand plans.graph typeName field data = .fill concrete)
      (hkept : h.kept? o field.wireName concrete data = none)
      (hinner : Applies plans (h.withObject o field.wireName concrete) (.object h.nextObject data) x e) :
      Applies plans h (.field o typeName field data) x e
  | reuse {h : Heap} {o x : ObjectId} {l : ListId} {typeName element : String}
      {keyed : Bool} {field : FieldPlan} {data e : Json} {items : List Json}
      (hdemand : demand plans.graph typeName field data = .arrange element keyed items)
      (hlist : (h.object o).list? field.wireName = some l) (hinner : Applies plans h (.list l items) x e) :
      Applies plans h (.field o typeName field data) x e
  | attach {h : Heap} {o x : ObjectId} {typeName element : String} {keyed : Bool} {field : FieldPlan}
      {data e : Json} {items : List Json}
      (hdemand : demand plans.graph typeName field data = .arrange element keyed items)
      (hlist : (h.object o).list? field.wireName = none)
      (hinner : Applies plans (h.withList o field.wireName element keyed) (.list h.nextList items) x e) :
      Applies plans h (.field o typeName field data) x e
  | entry {h : Heap} {x : ObjectId} {list : ObjectList} {position : Nat} {byId : List (String × ObjectId)}
      {concrete : String} {data e : Json} {rest : List Json}
      (hconcrete : concreteElement plans.graph list.elementType data = .ok concrete)
      (hentry : Applies plans (pick h list byId position concrete data).2
        (.object (pick h list byId position concrete data).1 data) x e) :
      Applies plans h (.entries list position byId (data :: rest)) x e
  | nextEntry {h h₁ : Heap} {x : ObjectId} {list : ObjectList} {position : Nat}
      {byId : List (String × ObjectId)}
      {concrete : String} {data e : Json} {rest : List Json} {changes : List String} {q : List Notification}
      (hconcrete : concreteElement plans.graph list.elementType data = .ok concrete)
      (hentry : Writes plans (pick h list byId position concrete data).2
        (.object (pick h list byId position concrete data).1 data (.ok changes)) h₁ q)
      (hrest : Applies plans h₁ (.entries list (position + 1) (afterEntry data byId) rest) x e) :
      Applies plans h (.entries list position byId (data :: rest)) x e
  | list {h : Heap} {l : ListId} {x : ObjectId} {items : List Json} {e : Json}
      (hentries : Applies plans h (.entries (h.list l) 0 (elementIds h (h.list l)) items) x e) :
      Applies plans h (.list l items) x e

variable {plans : Plans}

namespace Applies

variable {h h₁ : Heap} {o x y : ObjectId} {l : ListId} {typeName concrete element : String} {keyed : Bool}
  {field : FieldPlan} {rest : List FieldPlan} {data d e : Json} {items : List Json}

theorem rest_of_skip (ha : Applies plans h (.fields o typeName (field :: rest) data) x e)
    (hget : data.get? field.wireName = none) : Applies plans h (.fields o typeName rest data) x e := by
  cases ha with
  | skip _ hrest => exact hrest
  | first hget' | next hget' => cases hget.symm.trans hget'

theorem first_or_next (ha : Applies plans h (.fields o typeName (field :: rest) data) x e)
    (hget : data.get? field.wireName = some d) :
    Applies plans h (.field o typeName field d) x e ∨ ∃ changed h₁ q,
      Writes plans h (.field o typeName field d (.ok changed)) h₁ q ∧
        Applies plans h₁ (.fields o typeName rest data) x e := by
  cases ha with
  | skip hget' => cases hget.symm.trans hget'
  | first hget' hfield =>
      cases hget.symm.trans hget'
      exact .inl hfield
  | next hget' hfield hrest =>
      cases hget.symm.trans hget'
      exact .inr ⟨_, _, _, hfield, hrest⟩

theorem not_store {slot : Slot} (hdemand : demand plans.graph typeName field data = .store slot) :
    ¬Applies plans h (.field o typeName field data) x e := by
  intro ha
  cases ha with
  | keep hfill | replace hfill | reuse hfill | attach hfill => cases hdemand.symm.trans hfill

theorem not_refused {fault : PatchError} (hdemand : demand plans.graph typeName field data = .refuse fault) :
    ¬Applies plans h (.field o typeName field data) x e := by
  intro ha
  cases ha with
  | keep hfill | replace hfill | reuse hfill | attach hfill => cases hdemand.symm.trans hfill

theorem of_keep (ha : Applies plans h (.field o typeName field data) x e)
    (hdemand : demand plans.graph typeName field data = .fill concrete)
    (hkept : h.kept? o field.wireName concrete data = some y) : Applies plans h (.object y data) x e := by
  cases ha with
  | keep hfill hkept' hinner =>
      cases hdemand.symm.trans hfill
      cases hkept.symm.trans hkept'
      exact hinner
  | replace hfill hnone =>
      cases hdemand.symm.trans hfill
      cases hkept.symm.trans hnone
  | reuse hfill | attach hfill => cases hdemand.symm.trans hfill

theorem of_replace (ha : Applies plans h (.field o typeName field data) x e)
    (hdemand : demand plans.graph typeName field data = .fill concrete)
    (hkept : h.kept? o field.wireName concrete data = none) :
    Applies plans (h.withObject o field.wireName concrete) (.object h.nextObject data) x e := by
  cases ha with
  | keep hfill hsome =>
      cases hdemand.symm.trans hfill
      cases hkept.symm.trans hsome
  | replace hfill _ hinner =>
      cases hdemand.symm.trans hfill
      exact hinner
  | reuse hfill | attach hfill => cases hdemand.symm.trans hfill

theorem of_reuse (ha : Applies plans h (.field o typeName field data) x e)
    (hdemand : demand plans.graph typeName field data = .arrange element keyed items)
    (hlist : (h.object o).list? field.wireName = some l) : Applies plans h (.list l items) x e := by
  cases ha with
  | keep hfill | replace hfill => cases hdemand.symm.trans hfill
  | reuse harrange hlist' hinner =>
      cases hdemand.symm.trans harrange
      cases hlist.symm.trans hlist'
      exact hinner
  | attach _ hnone => cases hlist.symm.trans hnone

theorem of_attach (ha : Applies plans h (.field o typeName field data) x e)
    (hdemand : demand plans.graph typeName field data = .arrange element keyed items)
    (hlist : (h.object o).list? field.wireName = none) :
    Applies plans (h.withList o field.wireName element keyed) (.list h.nextList items) x e := by
  cases ha with
  | keep hfill | replace hfill => cases hdemand.symm.trans hfill
  | reuse _ hsome => cases hlist.symm.trans hsome
  | attach harrange _ hinner =>
      cases hdemand.symm.trans harrange
      exact hinner

variable {list : ObjectList} {position : Nat} {byId : List (String × ObjectId)} {later : List Json}

theorem not_refusedEntry {fault : PatchError}
    (hconcrete : concreteElement plans.graph list.elementType data = .error fault) :
    ¬Applies plans h (.entries list position byId (data :: later)) x e := by
  intro ha
  cases ha with
  | entry hok | nextEntry hok => cases hconcrete.symm.trans hok

theorem entry_or_next (ha : Applies plans h (.entries list position byId (data :: later)) x e)
    (hconcrete : concreteElement plans.graph list.elementType data = .ok concrete) :
    Applies plans (pick h list byId position concrete data).2
        (.object (pick h list byId position concrete data).1 data) x e ∨
      ∃ changes h₁ q, Writes plans (pick h list byId position concrete data).2
          (.object (pick h list byId position concrete data).1 data (.ok changes)) h₁ q ∧
        Applies plans h₁ (.entries list (position + 1) (afterEntry data byId) later) x e := by
  cases ha with
  | entry hconcrete' hentry =>
      cases hconcrete.symm.trans hconcrete'
      exact .inl hentry
  | nextEntry hconcrete' hentry hlater =>
      cases hconcrete.symm.trans hconcrete'
      exact .inr ⟨_, _, _, hentry, hlater⟩

end Applies

/-- That a field of an object has data in the course of a task. -/
def Task.Gives (plans : Plans) (h : Heap) (t : Task) (x : ObjectId) (name : String) : Prop :=
  ∃ e, Applies plans h t x e ∧ (e.get? name).isSome

/-- The fields that a goal itself names. -/
def Goal.Mentions : Goal → ObjectId → String → Prop
  | .fields o _ those data _, x, name => x = o ∧ name ∈ those.map (·.wireName) ∧ (data.get? name).isSome
  | .field o _ plan _ _, x, name => x = o ∧ name = plan.wireName
  | .object .., _, _ | .entries .., _, _ | .list .., _, _ => False

/-- The fields that a goal may write: those that it names, and those that have data. -/
def Goal.Aims (plans : Plans) (h : Heap) (g : Goal) (x : ObjectId) (name : String) : Prop :=
  g.Mentions x name ∨ g.task.Gives plans h x name

theorem Goal.Aims.first {h : Heap} {o x : ObjectId} {typeName name : String} {field : FieldPlan}
    {rest : List FieldPlan} {data d : Json} {r : Except PatchError Bool}
    {result : Except PatchError (List String)}
    (haims : Goal.Aims plans h (.field o typeName field d r) x name)
    (hget : data.get? field.wireName = some d) :
    Goal.Aims plans h (.fields o typeName (field :: rest) data result) x name := by
  rcases haims with ⟨rfl, rfl⟩ | ⟨e, happlies, hsome⟩
  · exact Or.inl ⟨rfl, List.mem_cons_self, by rw [hget]; rfl⟩
  · exact Or.inr ⟨e, .first hget happlies, hsome⟩

/-- **What has no data stays.** -/
theorem Writes.spares_applied {h h' : Heap} {g : Goal} {q : List Notification} (hw : Writes plans h g h' q) :
    h.Spares h' (g.Aims plans h) g.Owns := by
  induction hw with
  | halt hhalt => exact .refl _ _ _
  | object hplan hfields ih =>
      refine ih.widen (fun x name _ haims => Or.inr ?_) fun _ _ => False.elim
      rcases haims with ⟨rfl, -, hsome⟩ | ⟨e, happlies, hsome⟩
      · exact ⟨_, .self, hsome⟩
      · exact ⟨e, .object hplan happlies, hsome⟩
  | skip hget hrest ih =>
      refine ih.widen (fun x name _ haims => ?_) fun _ _ => False.elim
      rcases haims with ⟨rfl, hmem, hsome⟩ | ⟨e, happlies, hsome⟩
      · exact Or.inl ⟨rfl, List.mem_cons_of_mem _ hmem, hsome⟩
      · exact Or.inr ⟨e, .skip hget happlies, hsome⟩
  | stop hget hfield ih =>
      exact ih.widen (fun x name _ haims => haims.first hget) fun _ _ => False.elim
  | next hget hfield hrest ihfield ihrest =>
      refine .extend (ihfield.widen (fun x name _ haims => haims.first hget) fun _ _ => False.elim)
        hfield.evolves
        ihrest (fun x name _ haims => ?_) fun _ _ => False.elim
      rcases haims with ⟨rfl, hmem, hsome⟩ | ⟨e, happlies, hsome⟩
      · exact Or.inl ⟨rfl, List.mem_cons_of_mem _ hmem, hsome⟩
      · exact Or.inr ⟨e, .next hget hfield happlies, hsome⟩
  | store hdemand => exact .write (Or.inl ⟨rfl, rfl⟩) _ _
  | keep hdemand hkept hinner ih =>
      refine ih.widen (fun x name _ haims => ?_) fun _ _ => False.elim
      obtain ⟨e, happlies, hsome⟩ := haims.resolve_left id
      exact Or.inr ⟨e, .keep hdemand hkept happlies, hsome⟩
  | @replace h h' o typeName concrete field data result q hdemand hkept hinner ih =>
      refine .extend (.withObject (Or.inl ⟨rfl, rfl⟩) _ concrete) (.withObject h o field.wireName concrete) ih
        (fun x name _ haims => ?_) fun _ _ => False.elim
      obtain ⟨e, happlies, hsome⟩ := haims.resolve_left id
      exact Or.inr ⟨e, .replace hdemand hkept happlies, hsome⟩
  | reuse hdemand hlist hinner ih =>
      refine ih.widen (fun x name _ haims => ?_) fun k _ hk => .inr ⟨_, _, Or.inl ⟨rfl, rfl⟩, ?_⟩
      · obtain ⟨e, happlies, hsome⟩ := haims.resolve_left id
        exact Or.inr ⟨e, .reuse hdemand hlist happlies, hsome⟩
      · rw [Heap.list?_eq_some.1 hlist, hk]
  | @attach h h' o typeName element keyed field data items result q hdemand hlist hinner ih =>
      refine .extend (.withList (Or.inl ⟨rfl, rfl⟩) _ element keyed)
        (.withList h o field.wireName element keyed) ih
        (fun x name _ haims => ?_) fun k hk hown => ?_
      · obtain ⟨e, happlies, hsome⟩ := haims.resolve_left id
        exact Or.inr ⟨e, .attach hdemand hlist happlies, hsome⟩
      · subst hown
        exact absurd hk h.not_hasList_nextList
  | @stopEntry h h' list position byId concrete data rest e q hconcrete hentry ih =>
      refine .extend (spares_pick h list byId position concrete data _ _)
        (evolves_pick h list byId position concrete data) ih (fun x name _ haims => ?_) fun _ _ => False.elim
      obtain ⟨e, happlies, hsome⟩ := haims.resolve_left id
      exact Or.inr ⟨e, .entry hconcrete happlies, hsome⟩
  | @nextEntry h h₁ h₂ list position byId concrete data rest changes targets placed q₁ q₂ hconcrete hentry
      hrest ihentry ihrest =>
      have he := evolves_pick h list byId position concrete data
      refine .extend (.extend (spares_pick h list byId position concrete data _ _) he ihentry
        (fun x name _ haims => ?_) fun _ _ => False.elim) (he.trans hentry.evolves) ihrest
        (fun x name _ haims => ?_) fun _ _ => False.elim
      · obtain ⟨e, happlies, hsome⟩ := haims.resolve_left id
        exact Or.inr ⟨e, .entry hconcrete happlies, hsome⟩
      · obtain ⟨e, happlies, hsome⟩ := haims.resolve_left id
        exact Or.inr ⟨e, .nextEntry hconcrete hentry happlies, hsome⟩
  | @list h h' l items targets placed q hentries ih =>
      refine .extend (ih.widen (fun x name _ haims => ?_) fun _ _ => False.elim) hentries.evolves
        (.setItems rfl (fun _ _ => False) _) (fun _ _ _ => False.elim) fun _ _ hown => .inl hown.symm
      obtain ⟨e, happlies, hsome⟩ := haims.resolve_left id
      exact Or.inr ⟨e, .list happlies, hsome⟩

theorem Yields.unique {α : Type} {step : StateM Progress α} {h h₁ h₂ : Heap} {a b : α}
    {q q' : List Notification}
    (hy : Yields step h a h₁ q) (hy' : Yields step h b h₂ q') : a = b ∧ h₁ = h₂ := by
  have heq := (hy []).symm.trans (hy' [])
  rw [Prod.mk.injEq, Progress.mk.injEq] at heq
  exact ⟨heq.1, heq.2.1⟩

theorem Writes.placed_eq_targets {h h' : Heap} {list : ObjectList} {position : Nat}
    {byId : List (String × ObjectId)}
    {rest : List Json} {targets : List ObjectId} {placed : Placed} {q : List Notification}
    (hw : Writes plans h (.entries list position byId rest targets placed) h' q)
    (herror : placed.error = none) :
    placed.items = targets := by
  induction rest generalizing h position byId targets placed q with
  | nil =>
      cases hw with
      | halt hhalt =>
          cases hhalt
          rfl
  | cons data rest ih =>
      cases hw with
      | halt hhalt =>
          cases hhalt
          cases herror
      | stopEntry => cases herror
      | nextEntry hconcrete hentry hrest => exact congrArg _ (ih hrest herror)

/-- An old object that an entry was about stays in the list. -/
theorem Writes.mem_contents_of_target {h h' : Heap} {l : ListId} {items : List Json} {targets : List ObjectId}
    {placed : Placed} {q : List Notification}
    (hw : Writes plans h (.entries (h.list l) 0 (elementIds h (h.list l)) items targets placed) h' q)
    {c : ObjectId}
    (hc : c ∈ targets) (hold : h.HasObject c) : c ∈ placed.contents (h.list l).items := by
  have hitem := hw.target_mem hc hold
  unfold Placed.contents
  cases herror : placed.error with
  | none => exact hw.placed_eq_targets herror ▸ hc
  | some e =>
      rw [List.mem_append, List.mem_filter, decide_eq_true_eq]
      by_cases hplaced : c ∈ placed.items
      · exact .inl hplaced
      · exact .inr ⟨hitem, hplaced⟩

/-- What is below an object stays below the field that holds the object while it is written. -/
theorem Heap.Spares.belowField_object {h h' : Heap} {o c x : ObjectId} {field : String} {own : ListId → Prop}
    (hs : h.Spares h' (fun x _ => h.Below c x) own) (ht : h.Tidy) (hslot : h.slot o field = .object c)
    (hbelow : h'.Below c x) : h'.BelowField o field x := by
  refine ⟨c, Heap.mem_slotObjects.2 (.inl ?_), hbelow⟩
  rw [hs.slot (Heap.hasObject_of_slot hslot nofun) (ht.not_below_object hslot), hslot]

/-- The same for a list. -/
theorem Heap.Spares.belowField_list {h h' : Heap} {o x : ObjectId} {l : ListId} {field : String}
    {own : ListId → Prop}
    (hs : h.Spares h' (fun x _ => ∃ c ∈ (h.list l).items, h.Below c x) own) (ht : h.Tidy)
    (hslot : h.slot o field = .list l) (hbelow : ∃ c ∈ (h'.list l).items, h'.Below c x) :
    h'.BelowField o field x := by
  obtain ⟨c, hc, hbelow⟩ := hbelow
  refine ⟨c, Heap.mem_slotObjects.2 (.inr ⟨l, ?_, hc⟩), hbelow⟩
  rw [hs.slot (Heap.hasObject_of_slot hslot nofun) (ht.not_below_items hslot), hslot]

/-- Where an object is found when a goal is done. -/
def Goal.Retains (h : Heap) : Goal → ObjectId → Prop
  | .object o _ _, x | .fields o _ _ _ _, x => h.Below o x
  | .field o _ plan _ _, x => h.BelowField o plan.wireName x
  | .entries _ _ _ _ targets _, x => ∃ c ∈ targets, h.Below c x
  | .list l _ _, x => ∃ c ∈ (h.list l).items, h.Below c x

theorem Goal.Halts.retains {h : Heap} {g : Goal} {x : ObjectId} {e : Json} (hhalt : g.Halts plans h)
    (happlies : Applies plans h g.task x e) : g.Retains h x := by
  cases hhalt with
  | unknownType hplan =>
      cases happlies with
      | self => exact Relation.ReflTransGen.refl
      | object hplan' => cases hplan.symm.trans hplan'
  | expectedObject hplan hdata =>
      cases happlies with
      | self => exact Relation.ReflTransGen.refl
      | object => exact absurd rfl (hdata _)
  | noField => cases happlies
  | refused hdemand => exact absurd happlies (Applies.not_refused hdemand)
  | noEntry => cases happlies
  | refusedEntry hconcrete => exact absurd happlies (Applies.not_refusedEntry hconcrete)

/-- What is below a field is still below it when the fields behind it are written. -/
theorem Writes.retains_first (hd : plans.Distinct) {h h' : Heap} {o x : ObjectId} {typeName : String}
    {field : FieldPlan} {rest : List FieldPlan} {data : Json} {result : Except PatchError (List String)}
    {q : List Notification} (hrest : Writes plans h (.fields o typeName rest data result) h' q)
    (hs : h.Sound plans) (hw : h.Writable plans o typeName (field :: rest))
    (hbelow : h.BelowField o field.wireName x) : h'.Below o x := by
  obtain ⟨c, hc, hbelow⟩ := hbelow
  have hname := Heap.Writable.not_mem_rest hd hw
  have hsame := hrest.spares.same_field hs.tidy hrest.evolves hname hc
  rw [← hrest.spares.slotObjects hs.tidy hw.object (hs.tidy.not_within hname) fun _ _ => id] at hc
  exact Heap.below_of_belowField ⟨c, hc, hsame.below.2 hbelow⟩

/-- What is below an element that an entry was about is below the list once it has its new contents. -/
theorem Writes.retains_list (hd : plans.Distinct) {h h' : Heap} {l : ListId} {items : List Json}
    {targets : List ObjectId} {placed : Placed} {q : List Notification} {c x : ObjectId}
    (hentries : Writes plans h (.entries (h.list l) 0 (elementIds h (h.list l)) items targets placed) h' q)
    (hs : h.Sound plans) (hl : h.HasList l) (hx : h.HasObject x) (hc : c ∈ targets) (hbelow : h'.Below c x) :
    ∃ c ∈ ((h'.setItems l (placed.contents (h.list l).items)).2.list l).items,
      (h'.setItems l (placed.contents (h.list l).items)).2.Below c x := by
  have hs' := (hentries.sound_meets hd hs ⟨l, .of_list hl⟩).1
  have hold := Heap.hasObject_of_below hx (hentries.evolves.below hx hbelow)
  have hitem : c ∈ (h'.list l).items := hentries.list_of_entries hs.tidy hl ▸ hentries.target_mem hc hold
  -- nothing below an element leads to the list, so its new contents do not matter there
  have hsame : h'.Same (h'.setItems l (placed.contents (h.list l).items)).2 c := by
    refine ⟨fun _ => Heap.typeName_setItems .., fun _ => by rw [Heap.fields_setItems], fun hy hslot => ?_⟩
    rw [Heap.list_setItems, if_neg]
    rintro rfl
    exact hs'.tidy.slot_ne_list_of_below hitem hy _ hslot
  refine ⟨c, ?_, hsame.below.2 hbelow⟩
  rw [Heap.list_setItems, if_pos rfl]
  exact hentries.mem_contents_of_target hc hold

/-- **What has data is not lost.** An object that was there before and that data is written into is
still to be found where the goal puts its objects. -/
theorem Writes.retains (hd : plans.Distinct) {h h' : Heap} {g : Goal} {q : List Notification}
    (hw : Writes plans h g h' q) (hs : h.Sound plans) (hst : g.Stands plans h) {x : ObjectId} {e : Json}
    (hx : h.HasObject x) (happlies : Applies plans h g.task x e) : g.Retains h' x := by
  induction hw with
  | halt hhalt => exact hhalt.retains happlies
  | object hplan hfields ih =>
      cases happlies with
      | self => exact Relation.ReflTransGen.refl
      | object hplan' happlies =>
          cases hplan.symm.trans hplan'
          exact ih hs (.of_plan hst hplan) hx happlies
  | skip hget hrest ih => exact ih hs hst.rest hx (happlies.rest_of_skip hget)
  | stop hget hfield ih =>
      rcases happlies.first_or_next hget with happlies | ⟨_, _, _, hfield', -⟩
      · exact Heap.below_of_belowField (ih hs hst.first hx happlies)
      · cases (hfield.runs.unique hfield'.runs).1
  | next hget hfield hrest ihfield ihrest =>
      obtain ⟨hs₁, hst₁⟩ := hst.next hd hs hfield
      rcases happlies.first_or_next hget with happlies | ⟨_, _, _, hfield', happlies⟩
      · exact hrest.retains_first hd hs₁ (hst.evolves hfield.evolves) (ihfield hs hst.first hx happlies)
      · obtain rfl := (hfield'.runs.unique hfield.runs).2
        exact ihrest hs₁ hst₁ (hfield.evolves.objects hx) happlies
  | store hdemand => exact absurd happlies (Applies.not_store hdemand)
  | keep hdemand hkept hinner ih =>
      have hslot := (Heap.slot_of_kept hkept).1
      have hbelow := ih hs (hs.tidy.object hslot).2 hx (happlies.of_keep hdemand hkept)
      exact hinner.spares.belowField_object hs.tidy hslot hbelow
  | @replace h h' o typeName concrete field data result q hdemand hkept hinner ih =>
      have hs₁ := hs.withObject hst hdemand
      have hslot := h.slot_withObject_self o field.wireName concrete
      have hx₁ := (Heap.Evolves.withObject h o field.wireName concrete).objects hx
      have hbelow := ih hs₁ (hs₁.tidy.object hslot).2 hx₁ (happlies.of_replace hdemand hkept)
      exact hinner.spares.belowField_object hs₁.tidy hslot hbelow
  | reuse hdemand hlist hinner ih =>
      have hslot := Heap.list?_eq_some.1 hlist
      have hbelow := ih hs (hs.tidy.list hslot) hx (happlies.of_reuse hdemand hlist)
      exact hinner.spares.belowField_list hs.tidy hslot hbelow
  | @attach h h' o typeName element keyed field data items result q hdemand hlist hinner ih =>
      have hs₁ := hs.withList hst hdemand
      have hslot := h.slot_withList_self o field.wireName element keyed
      have hx₁ := (Heap.Evolves.withList h o field.wireName element keyed).objects hx
      have hbelow := ih hs₁ (hs₁.tidy.list hslot) hx₁ (happlies.of_attach hdemand hlist)
      exact hinner.spares.belowField_list hs₁.tidy hslot hbelow
  | @stopEntry h h' list position byId concrete data rest err q hconcrete hentry ih =>
      obtain ⟨l, hl⟩ := hst
      have hx₁ := (evolves_pick h list byId position concrete data).objects hx
      rcases happlies.entry_or_next hconcrete with happlies | ⟨_, _, _, hentry', -⟩
      · exact ⟨_, List.mem_cons_self, ih hs.pick (hl.hasObject_pick hs.tidy) hx₁ happlies⟩
      · cases (hentry.runs.unique hentry'.runs).1
  | @nextEntry h h₁ h₂ list position byId concrete data rest changes targets placed q₁ q₂ hconcrete hentry
      hrest ihentry ihrest =>
      obtain ⟨l, hl⟩ := hst
      have hx₁ := (evolves_pick h list byId position concrete data).objects hx
      obtain ⟨hs₁, hl₁⟩ := hl.next hd hs hentry
      rcases happlies.entry_or_next hconcrete with happlies | ⟨_, _, _, hentry', happlies⟩
      · have hbelow := ihentry hs.pick (hl.hasObject_pick hs.tidy) hx₁ happlies
        have hsame := Writes.same_nextEntry hd hconcrete hentry hrest hs hl
        exact ⟨_, List.mem_cons_self, hsame.below.2 hbelow⟩
      · obtain rfl := (hentry'.runs.unique hentry.runs).2
        obtain ⟨c, hc, hbelow⟩ := ihrest hs₁ ⟨l, hl₁⟩ (hentry.evolves.objects hx₁) happlies
        exact ⟨c, List.mem_cons_of_mem _ hc, hbelow⟩
  | list hentries ih =>
      cases happlies with
      | list happlies =>
          obtain ⟨c, hc, hbelow⟩ := ih hs ⟨_, .of_list hst⟩ hx happlies
          exact hentries.retains_list hd hs hst hx hc hbelow

end GraphClient.Live
