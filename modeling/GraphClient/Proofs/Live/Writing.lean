import GraphClient.Live.Patch
import GraphClient.Proofs.Live.Heap

/-! The rules of writing. A derivation of `Writes` tells how data gets into objects: what each field asks
for, which objects and lists are kept, and where an error ends the writing. The changes noted on the way
are only ever added to, so a rule gives just those that it adds. Every run of `patch` and of `reconcile`
follows the rules, and what is true of all derivations is true of all runs. -/

namespace GraphClient.Live

/-! ### What data asks of a field -/

/-- What is to be done with a field. -/
inductive Demand
  | store (slot : Slot)
  /-- To write data into an object of a type. -/
  | fill (concrete : String)
  /-- To make a list of objects what the items of the data say. -/
  | arrange (element : String) (keyed : Bool) (items : List Json)
  | refuse (error : PatchError)

/-- What data asks of a field of a type. -/
def demand (graph : TypeGraph) (typeName : String) (field : FieldPlan) (data : Json) : Demand :=
  match field.kind, data with
  | .leaf leaf, data => .store (leafSlot leaf field.nullable data)
  | .leafList _ _, .null => .store (if field.nullable then .null else .scalars [])
  | .leafList leaf itemNullable, .array items => .store (.scalars (items.map (itemValue leaf itemNullable)))
  | .leafList _ _, _ => .refuse (.invalidData typeName field.wireName .list)
  | _, .null => if field.nullable then .store .null else .refuse (.nullViolation typeName field.wireName)
  | .object target, .object _ => .fill target
  | .abstract target, .object _ =>
      match concreteType graph target data with
      | .ok concrete => .fill concrete
      | .error e => .refuse e
  | .object _, _ | .abstract _, _ => .refuse (.invalidData typeName field.wireName .object)
  | .objectList element _ keyed, .array items => .arrange element keyed items
  | .objectList _ _ _, _ => .refuse (.invalidData typeName field.wireName .list)

theorem demand_leaf {field : FieldPlan} {leaf : Leaf} (hkind : field.kind = .leaf leaf) (graph : TypeGraph)
    (typeName : String) (data : Json) :
    demand graph typeName field data = .store (leafSlot leaf field.nullable data) := by
  obtain ⟨name, wireName, kind, nullable, isId⟩ := field
  subst hkind
  rfl

/-- What data asks of a field, rule by rule. Why something is refused is not told. -/
inductive Demands (graph : TypeGraph) (typeName : String) (field : FieldPlan) : Json → Demand → Prop
  | leaf {leaf : Leaf} (data : Json) (hkind : field.kind = .leaf leaf) :
      Demands graph typeName field data (.store (leafSlot leaf field.nullable data))
  | noLeaves {leaf : Leaf} {itemNullable : Bool} (hkind : field.kind = .leafList leaf itemNullable) :
      Demands graph typeName field .null (.store (if field.nullable then .null else .scalars []))
  | leaves {leaf : Leaf} {itemNullable : Bool} (items : List Json)
      (hkind : field.kind = .leafList leaf itemNullable) :
      Demands graph typeName field (.array items)
        (.store (.scalars (items.map (itemValue leaf itemNullable))))
  | null (hnullable : field.nullable = true) : Demands graph typeName field .null (.store .null)
  | object {target : String} (members : List (String × Json)) (hkind : field.kind = .object target) :
      Demands graph typeName field (.object members) (.fill target)
  | member {target concrete : String} {members : List (String × Json)} (hkind : field.kind = .abstract target)
      (hconcrete : concreteType graph target (.object members) = .ok concrete) :
      Demands graph typeName field (.object members) (.fill concrete)
  | list {element : String} {isAbstract keyed : Bool} (items : List Json)
      (hkind : field.kind = .objectList element isAbstract keyed) :
      Demands graph typeName field (.array items) (.arrange element keyed items)
  | refused (data : Json) (e : PatchError) : Demands graph typeName field data (.refuse e)

theorem demands (graph : TypeGraph) (typeName : String) (field : FieldPlan) (data : Json) :
    Demands graph typeName field data (demand graph typeName field data) := by
  obtain ⟨name, wireName, kind, nullable, isId⟩ := field
  have hnull (e : PatchError) : Demands graph typeName ⟨name, wireName, kind, nullable, isId⟩ .null
      (if nullable then .store .null else .refuse e) := by
    cases nullable with
    | true => exact .null rfl
    | false => exact .refused _ _
  cases kind with
  | leaf leaf => exact .leaf data rfl
  | leafList leaf itemNullable =>
      cases data with
      | null => exact .noLeaves rfl
      | array items => exact .leaves items rfl
      | _ => exact .refused _ _
  | object target =>
      cases data with
      | null => exact hnull _
      | object members => exact .object members rfl
      | _ => exact .refused _ _
  | abstract target =>
      cases data with
      | null => exact hnull _
      | object members =>
          simp only [demand]
          split
          · exact .member rfl ‹_›
          · exact .refused _ _
      | _ => exact .refused _ _
  | objectList element isAbstract keyed =>
      cases data with
      | null => exact hnull _
      | array items => exact .list items rfl
      | _ => exact .refused _ _

theorem patchField_eq (graph : TypeGraph) (o : ObjectId) (typeName : String) (field : FieldPlan) (data : Json)
    (write : Writer) (entries : List Entry) :
    patchField graph o typeName field data write entries =
      match demand graph typeName field data with
      | .store slot => writeSlot o field.wireName slot
      | .fill concrete => patchNested o field.wireName concrete data write
      | .arrange element keyed _ => patchList graph o field.wireName element keyed entries
      | .refuse e => throw e := by
  obtain ⟨name, wireName, kind, nullable, isId⟩ := field
  cases kind <;> cases data <;> cases nullable <;> try rfl
  all_goals
    simp only [patchField, demand]
    cases concreteType graph _ _ <;> rfl

theorem arrange_eq_array {graph : TypeGraph} {typeName element : String} {field : FieldPlan} {data : Json}
    {keyed : Bool} {items : List Json}
    (hdemand : demand graph typeName field data = .arrange element keyed items) : data = .array items := by
  have hasks := demands graph typeName field data
  rw [hdemand] at hasks
  cases hasks with
  | list => rfl

/-! ### Goals -/

/-- Something that is written, with what comes of it. -/
inductive Goal
  | object (o : ObjectId) (data : Json) (result : Except PatchError (List String))
  | fields (o : ObjectId) (typeName : String) (fields : List FieldPlan) (data : Json)
      (result : Except PatchError (List String))
  | field (o : ObjectId) (typeName : String) (field : FieldPlan) (data : Json)
      (result : Except PatchError Bool)
  /-- Entries of a list from a position on. The targets are the elements that were written, also the one
  that was written when an error came. -/
  | entries (list : ObjectList) (position : Nat) (byId : List (String × ObjectId)) (rest : List Json)
      (targets : List ObjectId) (placed : Placed)
  | list (l : ListId) (items : List Json) (result : Except PatchError Reconciliation)

/-- What comes to its end with nothing written. -/
inductive Goal.Halts (plans : Plans) (h : Heap) : Goal → Prop
  | unknownType {o : ObjectId} {data : Json} (hplan : plans.get? (h.object o).typeName = none) :
      Halts plans h (.object o data (.error (.unknownType (h.object o).typeName)))
  | expectedObject {o : ObjectId} {data : Json} {plan : TypePlan}
      (hplan : plans.get? (h.object o).typeName = some plan) (hdata : ∀ members, data ≠ .object members) :
      Halts plans h (.object o data (.error (.expectedObject (h.object o).typeName)))
  | noField {o : ObjectId} {typeName : String} {data : Json} :
      Halts plans h (.fields o typeName [] data (.ok []))
  | refused {o : ObjectId} {typeName : String} {field : FieldPlan} {data : Json} {e : PatchError}
      (hdemand : demand plans.graph typeName field data = .refuse e) :
      Halts plans h (.field o typeName field data (.error e))
  | noEntry {list : ObjectList} {position : Nat} {byId : List (String × ObjectId)} :
      Halts plans h (.entries list position byId [] [] ⟨[], [], none⟩)
  | refusedEntry {list : ObjectList} {position : Nat} {byId : List (String × ObjectId)} {data : Json}
      {rest : List Json} {e : PatchError}
      (hconcrete : concreteElement plans.graph list.elementType data = .error e) :
      Halts plans h (.entries list position byId (data :: rest) [] ⟨[], [], some e⟩)

/-! ### Rules -/

/-- What is noted when a field is written. -/
def noted (h : Heap) (o : ObjectId) (field : String) (slot : Slot) : List Notification :=
  if h.differs o field slot then [.field o field] else []

/-- What is noted when a list gets new contents. -/
def notedOrder (l : ListId) (r : Reordering ObjectId) : List Notification :=
  if r.changes.isEmpty then [] else [.list l r.changes]

/-- The changed fields, when a field comes before others. -/
def consChanged (name : String) (changed : Bool) (later : List String) : List String :=
  if changed then name :: later else later

/-- The object that a field keeps for data. -/
def Heap.kept? (h : Heap) (o : ObjectId) (field concrete : String) (data : Json) : Option ObjectId :=
  ((h.object o).object? field).filter fun x =>
    (h.object x).typeName = concrete && sameIdentity (h.object x) data

theorem Heap.slot_of_kept {h : Heap} {o x : ObjectId} {field concrete : String} {data : Json}
    (hkept : h.kept? o field concrete data = some x) :
    h.slot o field = .object x ∧ (h.object x).typeName = concrete := by
  rw [kept?, Option.filter_eq_some_iff, object?_eq_some, Bool.and_eq_true, decide_eq_true_eq] at hkept
  exact ⟨hkept.1, hkept.2.1⟩

/-- The element for an entry, a new one if there is none. -/
def pick (h : Heap) (list : ObjectList) (byId : List (String × ObjectId)) (position : Nat)
    (concrete : String) (data : Json) : ObjectId × Heap :=
  match matchElement h list byId position concrete data with
  | some x => (x, h)
  | none => h.newObject concrete

/-- What a list is to hold once entries are written. -/
def Placed.contents (placed : Placed) (old : List ObjectId) : List ObjectId :=
  match placed.error with
  | none => placed.items
  | some _ => placed.items ++ old.filter fun o => o ∉ placed.items

/-- What came of a list, told by its old contents. -/
def Placed.result (placed : Placed) (old : List ObjectId) (r : Reordering ObjectId) :
    Except PatchError Reconciliation :=
  match placed.error with
  | some e => .error e
  | none =>
      let updated := (List.range (placed.contents old).length).filter fun i => (placed.contents old)[i]?.any
        fun o => o ∈ old && (placed.changed.lookup o).getD false
      .ok ⟨r.inserted, r.removed, r.moved, updated⟩

/-- How something is written: it leads from a heap to another one, with the changes noted on the way. -/
inductive Writes (plans : Plans) : Heap → Goal → Heap → List Notification → Prop
  | halt {h : Heap} {g : Goal} (hhalt : g.Halts plans h) : Writes plans h g h []
  | object {h h' : Heap} {o : ObjectId} {members : List (String × Json)} {plan : TypePlan}
      {result : Except PatchError (List String)} {q : List Notification}
      (hplan : plans.get? (h.object o).typeName = some plan)
      (hfields : Writes plans h (.fields o (h.object o).typeName plan.fields (.object members) result) h' q) :
      Writes plans h (.object o (.object members) result) h' q
  | skip {h h' : Heap} {o : ObjectId} {typeName : String} {field : FieldPlan} {rest : List FieldPlan}
      {data : Json} {result : Except PatchError (List String)} {q : List Notification}
      (hget : data.get? field.wireName = none)
      (hrest : Writes plans h (.fields o typeName rest data result) h' q) :
      Writes plans h (.fields o typeName (field :: rest) data result) h' q
  | stop {h h' : Heap} {o : ObjectId} {typeName : String} {field : FieldPlan} {rest : List FieldPlan}
      {data d : Json} {e : PatchError} {q : List Notification}
      (hget : data.get? field.wireName = some d)
      (hfield : Writes plans h (.field o typeName field d (.error e)) h' q) :
      Writes plans h (.fields o typeName (field :: rest) data (.error e)) h' q
  | next {h h₁ h₂ : Heap} {o : ObjectId} {typeName : String} {field : FieldPlan} {rest : List FieldPlan}
      {data d : Json} {changed : Bool} {result : Except PatchError (List String)} {q₁ q₂ : List Notification}
      (hget : data.get? field.wireName = some d)
      (hfield : Writes plans h (.field o typeName field d (.ok changed)) h₁ q₁)
      (hrest : Writes plans h₁ (.fields o typeName rest data result) h₂ q₂) :
      Writes plans h (.fields o typeName (field :: rest) data
        (result.map (consChanged field.wireName changed))) h₂ (q₁ ++ q₂)
  | store {h : Heap} {o : ObjectId} {typeName : String} {field : FieldPlan} {data : Json} {slot : Slot}
      (hdemand : demand plans.graph typeName field data = .store slot) :
      Writes plans h (.field o typeName field data (.ok (h.differs o field.wireName slot)))
        (h.write o field.wireName slot) (noted h o field.wireName slot)
  | keep {h h' : Heap} {o x : ObjectId} {typeName concrete : String} {field : FieldPlan} {data : Json}
      {result : Except PatchError (List String)} {q : List Notification}
      (hdemand : demand plans.graph typeName field data = .fill concrete)
      (hkept : h.kept? o field.wireName concrete data = some x)
      (hinner : Writes plans h (.object x data result) h' q) :
      Writes plans h (.field o typeName field data (result.map fun _ => false)) h' q
  | replace {h h' : Heap} {o : ObjectId} {typeName concrete : String} {field : FieldPlan} {data : Json}
      {result : Except PatchError (List String)} {q : List Notification}
      (hdemand : demand plans.graph typeName field data = .fill concrete)
      (hkept : h.kept? o field.wireName concrete data = none)
      (hinner : Writes plans (h.withObject o field.wireName concrete) (.object h.nextObject data result)
        h' q) :
      Writes plans h (.field o typeName field data
          (result.map fun _ => h.differs o field.wireName (.object h.nextObject)))
        h' (noted h o field.wireName (.object h.nextObject) ++ q)
  | reuse {h h' : Heap} {o : ObjectId} {l : ListId} {typeName element : String} {keyed : Bool}
      {field : FieldPlan} {data : Json} {items : List Json} {result : Except PatchError Reconciliation}
      {q : List Notification}
      (hdemand : demand plans.graph typeName field data = .arrange element keyed items)
      (hlist : (h.object o).list? field.wireName = some l)
      (hinner : Writes plans h (.list l items result) h' q) :
      Writes plans h (.field o typeName field data (result.map fun _ => false)) h' q
  | attach {h h' : Heap} {o : ObjectId} {typeName element : String} {keyed : Bool} {field : FieldPlan}
      {data : Json} {items : List Json} {result : Except PatchError Reconciliation} {q : List Notification}
      (hdemand : demand plans.graph typeName field data = .arrange element keyed items)
      (hlist : (h.object o).list? field.wireName = none)
      (hinner : Writes plans (h.withList o field.wireName element keyed) (.list h.nextList items result)
        h' q) :
      Writes plans h (.field o typeName field data
          (result.map fun _ => h.differs o field.wireName (.list h.nextList)))
        h' (noted h o field.wireName (.list h.nextList) ++ q)
  | stopEntry {h h' : Heap} {list : ObjectList} {position : Nat} {byId : List (String × ObjectId)}
      {concrete : String} {data : Json} {rest : List Json} {e : PatchError} {q : List Notification}
      (hconcrete : concreteElement plans.graph list.elementType data = .ok concrete)
      (hentry : Writes plans (pick h list byId position concrete data).2
        (.object (pick h list byId position concrete data).1 data (.error e)) h' q) :
      Writes plans h (.entries list position byId (data :: rest)
        [(pick h list byId position concrete data).1] ⟨[], [], some e⟩) h' q
  | nextEntry {h h₁ h₂ : Heap} {list : ObjectList} {position : Nat} {byId : List (String × ObjectId)}
      {concrete : String} {data : Json} {rest : List Json} {changes : List String}
      {targets : List ObjectId} {placed : Placed}
      {q₁ q₂ : List Notification}
      (hconcrete : concreteElement plans.graph list.elementType data = .ok concrete)
      (hentry : Writes plans (pick h list byId position concrete data).2
        (.object (pick h list byId position concrete data).1 data (.ok changes)) h₁ q₁)
      (hrest : Writes plans h₁ (.entries list (position + 1) (afterEntry data byId) rest targets placed)
        h₂ q₂) :
      Writes plans h (.entries list position byId (data :: rest)
          ((pick h list byId position concrete data).1 :: targets)
          ⟨(pick h list byId position concrete data).1 :: placed.items,
            placed.changed ++ [((pick h list byId position concrete data).1, !changes.isEmpty)],
            placed.error⟩)
        h₂ (q₁ ++ q₂)
  | list {h h' : Heap} {l : ListId} {items : List Json} {targets : List ObjectId} {placed : Placed}
      {q : List Notification}
      (hentries : Writes plans h
        (.entries (h.list l) 0 (elementIds h (h.list l)) items targets placed) h' q) :
      Writes plans h
        (.list l items (placed.result (h.list l).items (h'.setItems l (placed.contents (h.list l).items)).1))
        (h'.setItems l (placed.contents (h.list l).items)).2
        (q ++ notedOrder l (h'.setItems l (placed.contents (h.list l).items)).1)

/-! ### Runs -/

/-- What a step gives on a heap: an answer, another heap, and changes noted after those that there are. -/
def Yields {α : Type} (step : StateM Progress α) (h : Heap) (a : α) (h' : Heap) (q : List Notification) :
    Prop :=
  ∀ pending, StateT.run step ⟨h, pending⟩ = (a, ⟨h', pending ++ q⟩)

namespace Yields

variable {α β : Type} {h h₁ h₂ : Heap} {q₁ q₂ : List Notification}

theorem pure (h : Heap) (a : α) : Yields (pure a) h a h [] := by
  intro pending
  rw [List.append_nil]
  rfl

theorem bind {step : StateM Progress α} {next : α → StateM Progress β} {a : α} {b : β}
    (hstep : Yields step h a h₁ q₁) (hnext : Yields (next a) h₁ b h₂ q₂) :
    Yields (step >>= next) h b h₂ (q₁ ++ q₂) := by
  intro pending
  rw [StateT.run_bind, hstep pending, ← List.append_assoc]
  exact hnext _

theorem run_bind_ok {step : Patching α} {next : α → Patching β} {a : α} {b : Except PatchError β}
    (hstep : Yields step.run h (.ok a) h₁ q₁) (hnext : Yields (next a).run h₁ b h₂ q₂) :
    Yields (step >>= next).run h b h₂ (q₁ ++ q₂) := by
  rw [ExceptT.run_bind]
  exact bind hstep hnext

theorem run_bind_error {step : Patching α} {next : α → Patching β} {e : PatchError}
    (hstep : Yields step.run h (.error e) h₁ q₁) : Yields (step >>= next).run h (.error e) h₁ q₁ := by
  rw [ExceptT.run_bind, ← List.append_nil q₁]
  exact bind hstep (pure h₁ _)

/-- A step whose answer is told in another way. -/
theorem run_bind_pure {step : Patching α} {r : Except PatchError α} (hstep : Yields step.run h r h₁ q₁)
    (f : α → β) : Yields (step >>= fun a => Pure.pure (f a)).run h (r.map f) h₁ q₁ := by
  cases r with
  | error e => exact run_bind_error hstep
  | ok a =>
      rw [← List.append_nil q₁]
      exact run_bind_ok hstep (pure h₁ _)

theorem run_lift {step : StateM Progress α} {a : α} (hstep : Yields step h a h₁ q₁) :
    Yields (liftM step : Patching α).run h (.ok a) h₁ q₁ := by
  intro pending
  change StateT.run (Except.ok <$> step) _ = _
  rw [StateT.run_map, hstep pending]
  rfl

/-- A step that first looks at the heap. -/
theorem bind_get {next : Progress → StateM Progress β} {b : β}
    (hnext : ∀ pending, Yields (next ⟨h, pending⟩) h b h₁ q₁) : Yields (get >>= next) h b h₁ q₁ :=
  fun pending => hnext pending pending

theorem run_bind_get {next : Progress → Patching β} {b : Except PatchError β}
    (hnext : ∀ pending, Yields (next ⟨h, pending⟩).run h b h₁ q₁) :
    Yields (get >>= next : Patching β).run h b h₁ q₁ :=
  fun pending => hnext pending pending

theorem createObject (h : Heap) (typeName : String) :
    Yields (createObject typeName) h (h.newObject typeName).1 (h.newObject typeName).2 [] := by
  intro pending
  rw [List.append_nil]
  rfl

theorem createList (h : Heap) (elementType : String) (keyed : Bool) :
    Yields (createList elementType keyed) h (h.newList elementType keyed).1
      (h.newList elementType keyed).2 [] := by
  intro pending
  rw [List.append_nil]
  rfl

theorem writeSlot (h : Heap) (o : ObjectId) (field : String) (slot : Slot) :
    Yields (writeSlot o field slot).run h (.ok (h.differs o field slot)) (h.write o field slot)
      (noted h o field slot) := by
  intro pending
  by_cases hd : h.differs o field slot = true
  · have hrun : StateT.run (Live.writeSlot o field slot).run ⟨h, pending⟩ =
        (.ok true, ⟨h.write o field slot, pending ++ [.field o field]⟩) := by
      change StateT.run (ExceptT.run (if h.differs o field slot then _ else _)) _ = _
      rw [if_pos hd]
      rfl
    rw [hrun, noted, if_pos hd, hd]
  · have hrun : StateT.run (Live.writeSlot o field slot).run ⟨h, pending⟩ = (.ok false, ⟨h, pending⟩) := by
      change StateT.run (ExceptT.run (if h.differs o field slot then _ else _)) _ = _
      rw [if_neg hd]
      rfl
    rw [hrun, noted, if_neg hd, List.append_nil, Heap.write, if_neg hd, Bool.eq_false_iff.2 hd]

theorem setListItems (h : Heap) (l : ListId) (items : List ObjectId) :
    Yields (setListItems l items) h (h.setItems l items).1 (h.setItems l items).2
      (notedOrder l (h.setItems l items).1) := by
  intro pending
  change ((h.setItems l items).1, (⟨(h.setItems l items).2, if (h.setItems l items).1.changes.isEmpty
    then pending else pending ++ [.list l (h.setItems l items).1.changes]⟩ : Progress)) = _
  rw [notedOrder]
  split
  · rw [List.append_nil]
  · rfl

end Yields

variable {plans : Plans}

theorem Yields.bind_pick {β : Type} {h h₁ : Heap} {list : ObjectList} {byId : List (String × ObjectId)}
    {position : Nat} {concrete : String} {data : Json} {next : ObjectId → StateM Progress β} {b : β}
    {q : List Notification}
    (hnext : Yields (next (pick h list byId position concrete data).1)
      (pick h list byId position concrete data).2 b h₁ q) :
    Yields (match matchElement h list byId position concrete data with
      | some o => Pure.pure o >>= next
      | none => Live.createObject concrete >>= next) h b h₁ q := by
  rw [pick] at hnext
  cases hmatch : matchElement h list byId position concrete data with
  | some x =>
      rw [hmatch] at hnext
      exact hnext
  | none =>
      rw [hmatch] at hnext
      exact (Yields.createObject h concrete).bind hnext

/-! ### Rules are exact -/

/-- The entries of a list, each with the writer for its data. -/
def entriesFor (plans : Plans) (items : List Json) : List Entry := items.map fun d => ⟨d, patch plans d⟩

theorem entriesOf_array (plans : Plans) (items : List Json) :
    entriesOf (.array items) (fun d _ => patch plans d) = entriesFor plans items := by
  rw [entriesOf, entriesFor, ← congrArg (List.map _) (List.attach_map_subtype_val items), List.map_map]
  rfl

/-- The run that a goal is about. -/
def Goal.Runs (plans : Plans) (h h' : Heap) (q : List Notification) : Goal → Prop
  | .object o data result => Yields (patch plans data o).run h result h' q
  | .fields o typeName those data result =>
      Yields (patchFields plans.graph o typeName data (fun d _ => patch plans d) those).run h result h' q
  | .field o typeName plan data result =>
      Yields (patchField plans.graph o typeName plan data (patch plans data)
        (entriesOf data fun d _ => patch plans d)).run h result h' q
  | .entries elements position byId rest _ placed =>
      Yields (placeEntries plans.graph elements position byId (entriesFor plans rest)) h placed h' q
  | .list l items result => Yields (reconcile plans l items).run h result h' q

theorem Goal.Halts.runs {h : Heap} {g : Goal} (hhalt : g.Halts plans h) : g.Runs plans h h [] := by
  cases hhalt with
  | unknownType hplan =>
      rw [Goal.Runs, patch, patchWith]
      refine .run_bind_get fun _ => ?_
      dsimp only
      rw [hplan]
      exact .pure h _
  | @expectedObject o data plan hplan hdata =>
      rw [Goal.Runs, patch, patchWith]
      refine .run_bind_get fun _ => ?_
      dsimp only
      rw [hplan]
      cases data with
      | object members => exact absurd rfl (hdata members)
      | _ => exact .pure h _
  | noField => exact Yields.pure h _
  | refused hdemand =>
      rw [Goal.Runs, patchField_eq, hdemand]
      exact .pure h _
  | noEntry => exact Yields.pure h _
  | refusedEntry hconcrete =>
      rw [Goal.Runs, entriesFor, List.map_cons, placeEntries, hconcrete]
      exact .pure h _

/-- **The rules are exact.** What a derivation tells is what the run does, so there is one way to write. -/
theorem Writes.runs {h h' : Heap} {g : Goal} {q : List Notification} (hw : Writes plans h g h' q) :
    g.Runs plans h h' q := by
  induction hw with
  | halt hhalt => exact hhalt.runs
  | object hplan hfields ih =>
      rw [Goal.Runs, patch, patchWith]
      refine .run_bind_get fun _ => ?_
      dsimp only
      rw [hplan]
      exact ih
  | skip hget hrest ih =>
      rw [Goal.Runs, patchFields]
      split
      · exact ih
      · rename_i hsome
        cases hget.symm.trans hsome
  | @stop h h' o typeName field rest data d e q hget hfield ih =>
      rw [Goal.Runs, patchFields]
      split
      · rename_i hnone
        cases hget.symm.trans hnone
      · rename_i d' hsome
        obtain rfl := Option.some.inj (hget.symm.trans hsome)
        exact .run_bind_error ih
  | @next h h₁ h₂ o typeName field rest data d changed result q₁ q₂ hget hfield hrest ihfield ihrest =>
      rw [Goal.Runs, patchFields]
      split
      · rename_i hnone
        cases hget.symm.trans hnone
      · rename_i d' hsome
        obtain rfl := Option.some.inj (hget.symm.trans hsome)
        exact .run_bind_ok ihfield (Yields.run_bind_pure ihrest _)
  | @store h o typeName field data slot hdemand =>
      rw [Goal.Runs, patchField_eq, hdemand]
      exact Yields.writeSlot h o field.wireName slot
  | keep hdemand hkept hinner ih =>
      rw [Goal.Runs, patchField_eq, hdemand]
      refine .run_bind_get fun _ => ?_
      unfold Heap.kept? at hkept
      dsimp only
      rw [hkept]
      exact Yields.run_bind_pure ih _
  | @replace h h' o typeName concrete field data result q hdemand hkept hinner ih =>
      rw [Goal.Runs, patchField_eq, hdemand]
      refine .run_bind_get fun _ => ?_
      unfold Heap.kept? at hkept
      dsimp only
      rw [hkept, ← List.nil_append (noted h _ _ _ ++ q)]
      refine .run_bind_ok (Yields.createObject h concrete).run_lift ?_
      have hwrite := Yields.writeSlot (h.newObject concrete).2 o field.wireName (.object h.nextObject)
      rw [noted, Heap.differs_newObject] at hwrite
      exact hwrite.run_bind_ok (Yields.run_bind_pure ih _)
  | reuse hdemand hlist hinner ih =>
      obtain rfl := arrange_eq_array hdemand
      rw [Goal.Runs, patchField_eq, hdemand, entriesOf_array]
      refine .run_bind_get fun _ => ?_
      rw [hlist]
      exact Yields.run_bind_pure ih _
  | @attach h h' o typeName element keyed field data items result q hdemand hlist hinner ih =>
      obtain rfl := arrange_eq_array hdemand
      rw [Goal.Runs, patchField_eq, hdemand, entriesOf_array]
      refine .run_bind_get fun _ => ?_
      rw [hlist, ← List.nil_append (noted h _ _ _ ++ q)]
      refine .run_bind_ok (Yields.createList h element keyed).run_lift ?_
      exact (Yields.writeSlot _ o field.wireName (.list h.nextList)).run_bind_ok (Yields.run_bind_pure ih _)
  | @stopEntry h h' list position byId concrete data rest e q hconcrete hentry ih =>
      rw [Goal.Runs, entriesFor, List.map_cons, placeEntries, hconcrete, ← List.append_nil q]
      exact .bind_get fun _ => .bind_pick (Yields.bind ih (.pure h' _))
  | @nextEntry h h₁ h₂ list position byId concrete data rest changes targets placed q₁ q₂ hconcrete hentry
      hrest ihentry ihrest =>
      rw [Goal.Runs, entriesFor, List.map_cons, placeEntries, hconcrete, ← List.append_nil q₂]
      exact .bind_get fun _ => .bind_pick (Yields.bind ihentry (Yields.bind ihrest (.pure h₂ _)))
  | @list h h' l items targets placed q hentries ih =>
      refine .run_bind_get fun _ => .run_bind_ok (Yields.run_lift ih) ?_
      rw [← List.append_nil (notedOrder l _)]
      refine .run_bind_ok (Yields.setListItems h' l _).run_lift ?_
      rw [Placed.result, Placed.contents]
      cases placed.error with
      | some e => exact .pure _ _
      | none => exact .pure _ _

/-! ### Every run follows the rules -/

/-- That data is written by the rules, whatever it is written into. -/
def Follows (plans : Plans) (data : Json) : Prop := ∀ o h, ∃ r h' q, Writes plans h (.object o data r) h' q

theorem exists_writes_entries {items : List Json} (hitems : ∀ d ∈ items, Follows plans d) (list : ObjectList)
    (position : Nat) (byId : List (String × ObjectId)) (h : Heap) :
    ∃ targets placed h' q, Writes plans h (.entries list position byId items targets placed) h' q := by
  induction items generalizing position byId h with
  | nil => exact ⟨[], _, h, [], .halt .noEntry⟩
  | cons data rest ih =>
      cases hconcrete : concreteElement plans.graph list.elementType data with
      | error e => exact ⟨[], _, h, [], .halt (.refusedEntry hconcrete)⟩
      | ok concrete =>
          obtain ⟨r, h₁, q₁, hentry⟩ := hitems data List.mem_cons_self
            (pick h list byId position concrete data).1 (pick h list byId position concrete data).2
          cases r with
          | error e => exact ⟨_, _, h₁, q₁, .stopEntry hconcrete hentry⟩
          | ok changes =>
              obtain ⟨targets, placed, h₂, q₂, hrest⟩ :=
                ih (fun d hd => hitems d (List.mem_cons_of_mem _ hd)) (position + 1) (afterEntry data byId) h₁
              exact ⟨_, _, h₂, q₁ ++ q₂, .nextEntry hconcrete hentry hrest⟩

theorem exists_writes_list {items : List Json} (hitems : ∀ d ∈ items, Follows plans d)
    (l : ListId) (h : Heap) :
    ∃ r h' q, Writes plans h (.list l items r) h' q := by
  obtain ⟨targets, placed, h₁, q₁, hentries⟩ :=
    exists_writes_entries hitems (h.list l) 0 (elementIds h (h.list l)) h
  exact ⟨_, _, _, .list hentries⟩

theorem exists_writes_field {data : Json} (hdata : Follows plans data)
    (hitems : ∀ items, data = .array items → ∀ d ∈ items, Follows plans d) (o : ObjectId) (typeName : String)
    (field : FieldPlan) (h : Heap) : ∃ r h' q, Writes plans h (.field o typeName field data r) h' q := by
  cases hdemand : demand plans.graph typeName field data with
  | store slot => exact ⟨_, _, _, .store hdemand⟩
  | fill concrete =>
      cases hkept : h.kept? o field.wireName concrete data with
      | some x =>
          obtain ⟨r, h', q, hinner⟩ := hdata x h
          exact ⟨_, h', q, .keep hdemand hkept hinner⟩
      | none =>
          obtain ⟨r, h', q, hinner⟩ := hdata h.nextObject (h.withObject o field.wireName concrete)
          exact ⟨_, h', _, .replace hdemand hkept hinner⟩
  | arrange element keyed items =>
      have hitems := hitems items (arrange_eq_array hdemand)
      cases hlist : (h.object o).list? field.wireName with
      | some l =>
          obtain ⟨r, h', q, hinner⟩ := exists_writes_list hitems l h
          exact ⟨_, h', q, .reuse hdemand hlist hinner⟩
      | none =>
          obtain ⟨r, h', q, hinner⟩ :=
            exists_writes_list hitems h.nextList (h.withList o field.wireName element keyed)
          exact ⟨_, h', _, .attach hdemand hlist hinner⟩
  | refuse e => exact ⟨_, h, [], .halt (.refused hdemand)⟩

theorem exists_writes_fields {data : Json} (hinner : ∀ d, sizeOf d < sizeOf data → Follows plans d)
    (o : ObjectId) (typeName : String) (fields : List FieldPlan) (h : Heap) :
    ∃ r h' q, Writes plans h (.fields o typeName fields data r) h' q := by
  induction fields generalizing h with
  | nil => exact ⟨_, h, [], .halt .noField⟩
  | cons field rest ih =>
      cases hget : data.get? field.wireName with
      | none =>
          obtain ⟨r, h', q, hrest⟩ := ih h
          exact ⟨r, h', q, .skip hget hrest⟩
      | some d =>
          have smaller := Json.sizeOf_get?_lt hget
          obtain ⟨r, h₁, q₁, hfield⟩ := exists_writes_field (hinner d smaller) (fun items heq item hitem =>
            hinner item (Nat.lt_trans (heq ▸ Json.sizeOf_item_lt hitem) smaller)) o typeName field h
          cases r with
          | error e => exact ⟨_, h₁, q₁, .stop hget hfield⟩
          | ok changed =>
              obtain ⟨r, h₂, q₂, hrest⟩ := ih h₁
              exact ⟨_, h₂, q₁ ++ q₂, .next hget hfield hrest⟩

/-- **Every run follows the rules.** Whatever an object is written with, a derivation tells the run. -/
theorem follows (plans : Plans) (data : Json) : Follows plans data := by
  intro o h
  cases hplan : plans.get? (h.object o).typeName with
  | none => exact ⟨_, h, [], .halt (.unknownType hplan)⟩
  | some plan =>
      cases data with
      | object members =>
          have hinner : ∀ d, sizeOf d < sizeOf (Json.object members) → Follows plans d :=
            fun d _ => follows plans d
          obtain ⟨r, h', q, hfields⟩ :=
            exists_writes_fields hinner o (h.object o).typeName plan.fields h
          exact ⟨r, h', q, .object hplan hfields⟩
      | _ => exact ⟨_, h, [], .halt (.expectedObject hplan nofun)⟩
termination_by sizeOf data
decreasing_by assumption

end GraphClient.Live
