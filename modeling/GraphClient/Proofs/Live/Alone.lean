import GraphClient.Proofs.Live.Calls
import GraphClient.Proofs.Live.Diff
import GraphClient.Proofs.Live.Echo

/-! One handler among others. While callbacks only put down what they are told, a handler with all that is
below its root is in a session as it is in another one in which no other handler got anything: the objects
are the same but for their numbers, and so is what its callbacks and the observers below its root are told.
Every step that is taken for a handler can be taken on both sides, and leaves the other handlers alone. -/

namespace GraphClient.Live

/-! ### Events about a part -/

/-- That an event tells of a change in a part. -/
def Part.Meets (p : Part) : Event → Prop
  | .field o _ => p.objects o
  | .list l _ => p.lists l
  | .data .. | .error _ | .completed => False

/-- That nothing in an event is outside of a part. -/
def Part.HoldsEvent (p : Part) : Event → Prop
  | .field o _ => p.objects o
  | .list l change => p.lists l ∧ ∀ x, change.item? = some x → p.objects x
  | .data root _ => p.objects root
  | .error _ | .completed => True

theorem Part.HoldsEvent.rename_eq {p : Part} {e : Event} (he : p.HoldsEvent e) {ρ ρ' : Renaming}
    (hobjects : ∀ {x}, p.objects x → ρ'.objects x = ρ.objects x)
    (hlists : ∀ {l}, p.lists l → ρ'.lists l = ρ.lists l) : e.rename ρ' = e.rename ρ := by
  cases e with
  | field o name => exact congrArg (Event.field · name) (hobjects he)
  | list l change =>
      exact congrArg₂ Event.list (hlists he.1) (ListChange.map_congr fun x hx => hobjects (he.2 x hx))
  | data root changes => exact congrArg (Event.data · changes) (hobjects he)
  | error e => rfl
  | completed => rfl

theorem Part.HoldsEvent.mono {p p' : Part} {e : Event} (he : p.HoldsEvent e)
    (hobjects : ∀ {x}, p.objects x → p'.objects x) (hlists : ∀ {l}, p.lists l → p'.lists l) :
    p'.HoldsEvent e := by
  cases e with
  | list l change => exact ⟨hlists he.1, fun x hx => hobjects (he.2 x hx)⟩
  | field o name => exact hobjects he
  | data root changes => exact hobjects he
  | _ => trivial

/-- That a callback was told something as one of a handler, or as an observer of a part. -/
def Told.Concerns {κ : Type} (h : HandlerId) (p : Part) (t : Told κ) : Prop :=
  match t.callback with
  | .handler k _ _ => k = h
  | .observer _ => p.Meets t.event

/-- What the callbacks of a handler and the observers of a part were told. -/
noncomputable def toldOf {κ : Type} (h : HandlerId) (p : Part) (told : List (Told κ)) : List (Told κ) :=
  open Classical in told.filter fun t => t.Concerns h p

theorem toldOf_append {κ : Type} (h : HandlerId) (p : Part) (told more : List (Told κ)) :
    toldOf h p (told ++ more) = toldOf h p told ++ toldOf h p more := List.filter_append ..

/-- That a handler has the operation and the callbacks of another one. -/
structure Handler.KeepsCalls {κ : Type} (s s' : Handler κ) : Prop where
  id : s.id = s'.id
  onData : s.onData = s'.onData
  onError : s.onError = s'.onError
  onCompleted : s.onCompleted = s'.onCompleted

theorem Handler.KeepsCalls.refl {κ : Type} (s : Handler κ) : s.KeepsCalls s := ⟨rfl, rfl, rfl, rfl⟩

namespace Client

variable {κ μ : Type} {c b v b₁ v₁ b₂ v₂ : Session κ μ} {h k : HandlerId} {i i₁ i₂ : Image} {id : String}

/-! ### Recording -/

/-- What callbacks do that only put down what they are told. -/
def recording : Reaction (Callback κ) (Journal κ μ) := fun k e c => c.jot k e

/-- Puts down what several callbacks were told. -/
def hear (told : List (Told κ)) (c : Session κ μ) : Session κ μ :=
  { c with host := { c.host with told := c.host.told ++ told } }

/-- What the observers are told about a noted change. -/
def toldAbout (c : Session κ μ) (n : Notification) : List (Told κ) :=
  (c.watch.calls n).map fun call => ⟨call.1, call.2⟩

theorem recording_eq_looking : (recording : Reaction (Callback κ) (Journal κ μ)) =
    looking fun k e _ host => { host with told := host.told ++ [⟨k, e⟩] } := rfl

theorem looked_recording (h : Heap) (calls : List (Callback κ × Event)) (host : Journal κ μ) :
    looked (fun k e _ (host : Journal κ μ) => { host with told := host.told ++ [⟨k, e⟩] }) h calls host =
      { host with told := host.told ++ calls.map fun call => ⟨call.1, call.2⟩ } := by
  induction calls generalizing host with
  | nil => rw [List.map_nil, List.append_nil]; rfl
  | cons call rest ih =>
      refine (ih _).trans ?_
      dsimp only
      rw [List.map_cons, List.append_assoc, List.singleton_append]

theorem tell_recording (callbacks : List (Callback κ)) (e : Event) (c : Session κ μ) :
    tell recording callbacks e c = c.hear (callbacks.map fun k => ⟨k, e⟩) := by
  rw [recording_eq_looking, tell_looking, looked_recording, List.map_map]
  rfl

theorem notifyAll_recording (q : List Notification) (c : Session κ μ) :
    notifyAll recording q c = c.hear (q.flatMap c.toldAbout) := by
  rw [recording_eq_looking, notifyAll_looking, looked_recording, List.map_flatMap]
  rfl

/-! ### Parts of handlers -/

/-- The objects below the root of a handler, and the lists in their fields. -/
def partOf (c : Session κ μ) (h : HandlerId) : Part where
  objects x := ∃ r, (c.handler h).root = some r ∧ c.heap.Below r x
  lists l := ∃ x name, (∃ r, (c.handler h).root = some r ∧ c.heap.Below r x) ∧ c.heap.slot x name = .list l

/-- That no two handlers share anything: routes lead to handlers with their ids, callbacks are those of
their handlers, observers are those of objects and lists that there are, and what is below two roots has
nothing in common. -/
structure Isolated (c : Session κ μ) : Prop where
  owner : ∀ {id h}, c.routes.get? id = some h → (c.handler h).id = some id
  named : c.Named
  observed : ∀ {o}, ¬c.heap.HasObject o → (c.watch.get (.object o)).entries = []
  observedList : ∀ {l}, ¬c.heap.HasList l → (c.watch.get (.list l)).entries = []
  names : ∀ {o}, (c.heap.object o).fields.names.Nodup
  made : ∀ {h x}, (c.partOf h).objects x → c.heap.HasObject x
  madeList : ∀ {h l}, (c.partOf h).lists l → c.heap.HasList l
  apart : ∀ {h k x}, h ≠ k → (c.partOf h).objects x → ¬(c.partOf k).objects x
  apartList : ∀ {h k l}, h ≠ k → (c.partOf h).lists l → ¬(c.partOf k).lists l

/-- That nothing was done to a session since a moment but what messages do. -/
structure Since (c b : Session κ μ) : Prop where
  plans : b.plans = c.plans
  watch : b.watch = c.watch
  isOpen : b.isOpen = c.isOpen
  route : ∀ {id h}, b.routes.get? id = some h → c.routes.get? id = some h
  id : ∀ h, (b.handler h).id = (c.handler h).id
  object : ∀ {x}, c.heap.HasObject x → b.heap.HasObject x
  list : ∀ {l}, c.heap.HasList l → b.heap.HasList l
  named : b.Named

/-- That a handler is in one session as it is in another one. -/
structure Tracks (c : Session κ μ) (h : HandlerId) (i : Image) (b v : Session κ μ) : Prop where
  whole : c.Since b
  alone : c.Since v
  heap : i.heap = v.heap
  shows : i.Shows b.heap
  fixed : ∀ {x}, c.heap.HasObject x → i.names.objects x = x
  fixedList : ∀ {l}, c.heap.HasList l → i.names.lists l = l
  within : ∀ {x}, c.heap.HasObject x → i.part.objects x → (c.partOf h).objects x
  withinList : ∀ {l}, c.heap.HasList l → i.part.lists l → (c.partOf h).lists l
  handler : v.handler h = (b.handler h).rename i.names
  root : ∀ {r}, (b.handler h).root = some r → i.part.objects r
  routes : ∀ id, c.routes.get? id = some h → v.routes.get? id = b.routes.get? id
  sends : ∀ id, c.routes.get? id = some h → v.sendsFor id = b.sendsFor id
  told : ∃ more more', b.host.told = c.host.told ++ more ∧ v.host.told = c.host.told ++ more' ∧
    toldOf h (c.partOf h) more' = (toldOf h (c.partOf h) more).map (.rename i.names) ∧
    ∀ t ∈ toldOf h (c.partOf h) more, i.part.HoldsEvent t.event

/-- What a step that is taken for a handler leaves alone. -/
structure Leaves (c : Session κ μ) (h : HandlerId) (i : Image) (b : Session κ μ) (i₁ : Image)
    (b₁ : Session κ μ) : Prop where
  handlers : ∀ k, k ≠ h → b₁.handler k = b.handler k
  grows : i.Grows b.heap i₁ b₁.heap
  routes : ∀ id, c.routes.get? id ≠ some h → b₁.routes.get? id = b.routes.get? id
  sends : ∀ id, c.routes.get? id ≠ some h → b₁.sendsFor id = b.sendsFor id
  told : ∃ more, b₁.host.told = b.host.told ++ more ∧ ∀ t ∈ more, t.Concerns h i₁.part

/-- That a handler is still the same in two sessions after a step for it in both. -/
def Moves (c : Session κ μ) (h : HandlerId) (i : Image) (b b₁ v₁ : Session κ μ) : Prop :=
  ∃ i₁, c.Tracks h i₁ b₁ v₁ ∧ c.Leaves h i b i₁ b₁

/-! ### Chains of steps -/

namespace Leaves

theorem refl (c : Session κ μ) (h : HandlerId) (i : Image) (b : Session κ μ) : c.Leaves h i b i b :=
  ⟨fun _ _ => rfl, .refl i b.heap, fun _ _ => rfl, fun _ _ => rfl, [], (List.append_nil _).symm, nofun⟩

theorem trans (hfirst : c.Leaves h i b i₁ b₁) (hsecond : c.Leaves h i₁ b₁ i₂ b₂) : c.Leaves h i b i₂ b₂ where
  handlers k hk := (hsecond.handlers k hk).trans (hfirst.handlers k hk)
  grows := hfirst.grows.trans hsecond.grows
  routes id hid := (hsecond.routes id hid).trans (hfirst.routes id hid)
  sends id hid := (hsecond.sends id hid).trans (hfirst.sends id hid)
  told := by
    obtain ⟨more, htold, hmore⟩ := hfirst.told
    obtain ⟨more', htold', hmore'⟩ := hsecond.told
    refine ⟨more ++ more', by rw [htold', htold, List.append_assoc],
      List.forall_mem_append.2 ⟨fun t ht => ?_, hmore'⟩⟩
    have hin := hmore t ht
    obtain ⟨callback, event⟩ := t
    cases callback with
    | handler k role a => exact hin
    | observer a =>
        cases event with
        | field o name => exact hsecond.grows.part hin
        | list l change => exact hsecond.grows.partList hin
        | _ => exact hin

end Leaves

theorem Tracks.stay (ht : c.Tracks h i b v) : c.Moves h i b b v := ⟨i, ht, .refl c h i b⟩

/-- A step and then another one. -/
theorem Leaves.moves (hfirst : c.Leaves h i b i₁ b₁) (hsecond : c.Moves h i₁ b₁ b₂ v₂) :
    c.Moves h i b b₂ v₂ :=
  hsecond.imp fun _ hmoved => ⟨hmoved.1, hfirst.trans hmoved.2⟩

theorem Moves.trans (hfirst : c.Moves h i b b₁ v₁)
    (hsecond : ∀ i₁, c.Tracks h i₁ b₁ v₁ → c.Moves h i₁ b₁ b₂ v₂) : c.Moves h i b b₂ v₂ := by
  obtain ⟨i₁, ht, hl⟩ := hfirst
  exact hl.moves (hsecond i₁ ht)

/-! ### Steps -/

theorem Since.step (hs : c.Since b) (hplans : b₁.plans = b.plans) (hwatch : b₁.watch = b.watch)
    (hopen : b₁.isOpen = b.isOpen) (hroute : ∀ {id h}, b₁.routes.get? id = some h → b.routes.get? id = some h)
    (hhandler : ∀ h, (b₁.handler h).KeepsCalls (b.handler h))
    (hobject : ∀ {x}, b.heap.HasObject x → b₁.heap.HasObject x)
    (hlist : ∀ {l}, b.heap.HasList l → b₁.heap.HasList l) : c.Since b₁ where
  plans := hplans.trans hs.plans
  watch := hwatch.trans hs.watch
  isOpen := hopen.trans hs.isOpen
  route hr := hs.route (hroute hr)
  id h := (hhandler h).id.trans (hs.id h)
  object hx := hobject (hs.object hx)
  list hl := hlist (hs.list hl)
  named := ⟨hwatch ▸ hs.named.observer, fun h => (hhandler h).onData ▸ hs.named.data h,
    fun h => (hhandler h).onError ▸ hs.named.error h, fun h =>
      (hhandler h).onCompleted ▸ hs.named.completed h⟩

/-- A step that changes nothing but what was told. -/
theorem Since.hear (hs : c.Since b) (told : List (Told κ)) : c.Since (b.hear told) :=
  hs.step rfl rfl rfl (fun hr => hr) (fun _ => .refl _) (fun hx => hx) fun hl => hl

namespace Tracks

/-- What was there at the beginning has the same numbers on both sides, so that nothing else gets them. -/
theorem objects_iff (hc : c.Isolated) (ht : c.Tracks h i b v) {x : ObjectId} :
    (c.partOf h).objects (i.names.objects x) ↔ (c.partOf h).objects x := by
  constructor <;> intro hx
  · have hsame := ht.fixed (hc.made hx)
    rwa [i.names.objects.injective hsame] at hx
  · rwa [ht.fixed (hc.made hx)]

theorem lists_iff (hc : c.Isolated) (ht : c.Tracks h i b v) {l : ListId} :
    (c.partOf h).lists (i.names.lists l) ↔ (c.partOf h).lists l := by
  constructor <;> intro hl
  · have hsame := ht.fixedList (hc.madeList hl)
    rwa [i.names.lists.injective hsame] at hl
  · rwa [ht.fixedList (hc.madeList hl)]

theorem concerns_iff (hc : c.Isolated) (ht : c.Tracks h i b v) (t : Told κ) :
    (t.rename i.names).Concerns h (c.partOf h) ↔ t.Concerns h (c.partOf h) := by
  obtain ⟨callback, event⟩ := t
  cases callback with
  | handler k role a => exact Iff.rfl
  | observer a =>
      cases event with
      | field o name => exact ht.objects_iff hc
      | list l change => exact ht.lists_iff hc
      | _ => exact Iff.rfl

theorem toldOf_rename (hc : c.Isolated) (ht : c.Tracks h i b v) (told : List (Told κ)) :
    toldOf h (c.partOf h) (told.map (.rename i.names)) =
      (toldOf h (c.partOf h) told).map (.rename i.names) := by
  classical
  rw [toldOf, List.filter_map, toldOf]
  refine congrArg (List.map _) (List.filter_congr fun t _ => ?_)
  exact decide_eq_decide.2 (ht.concerns_iff hc t)

/-- Callbacks of the handler, or observers of its part, are told something. -/
theorem hear (hc : c.Isolated) (ht : c.Tracks h i b v) (told : List (Told κ))
    (hconcerns : ∀ t ∈ told, t.Concerns h i.part) (hholds : ∀ t ∈ told, i.part.HoldsEvent t.event) :
    c.Tracks h i (b.hear told) (v.hear (told.map (.rename i.names))) ∧ c.Leaves h i b i (b.hear told) := by
  obtain ⟨more, more', htold, htold', hsame, hin⟩ := ht.told
  refine ⟨{ ht with whole := ht.whole.hear told, alone := ht.alone.hear _, told := ?_ }, ?_⟩
  · refine ⟨more ++ told, more' ++ told.map (.rename i.names), ?_, ?_, ?_, ?_⟩
    · rw [Client.hear, htold, List.append_assoc]
    · rw [Client.hear, htold', List.append_assoc]
    · rw [toldOf_append, toldOf_append, List.map_append, hsame, ht.toldOf_rename hc]
    · rw [toldOf_append]
      exact List.forall_mem_append.2 ⟨hin, fun t ht => hholds t (List.mem_of_mem_filter ht)⟩
  · exact ⟨fun _ _ => rfl, .refl _ _, fun _ _ => rfl, fun _ _ => rfl, told, rfl, hconcerns⟩

/-- The handler is changed on both sides, but for its operation and its callbacks. -/
theorem modifyHandler (ht : c.Tracks h i b v) (change change' : Handler (Callback κ) → Handler (Callback κ))
    (hkept : ∀ s, (change s).KeepsCalls s) (hkept' : ∀ s, (change' s).KeepsCalls s)
    (hrename : change' ((b.handler h).rename i.names) = (change (b.handler h)).rename i.names)
    (hroot : ∀ {r}, (change (b.handler h)).root = some r → i.part.objects r) :
    c.Tracks h i (b.modifyHandler h change) (v.modifyHandler h change') ∧
      c.Leaves h i b i (b.modifyHandler h change) := by
  have hcalls : ∀ {change : Handler (Callback κ) → Handler (Callback κ)} (b : Session κ μ),
      (∀ s, (change s).KeepsCalls s) →
        ∀ k, ((b.modifyHandler h change).handler k).KeepsCalls (b.handler k) := by
    intro change b hkept k
    rw [handler_modifyHandler]
    split
    · exact hkept _
    · exact .refl _
  refine ⟨{ ht with
    whole := ht.whole.step rfl rfl rfl id (hcalls b hkept) id id
    alone := ht.alone.step rfl rfl rfl id (hcalls v hkept') id id
    handler := ?_, root := ?_ }, ?_⟩
  · rw [handler_modifyHandler_self, handler_modifyHandler_self, ht.handler, hrename]
  · rw [handler_modifyHandler_self]
    exact hroot
  · exact ⟨fun k hk => handler_modifyHandler_of_ne hk b change, .refl _ _, fun _ _ => rfl, fun _ _ => rfl, [],
      (List.append_nil _).symm, nofun⟩

/-- The objects are changed below the root of the handler, and in the same way on both sides. -/
theorem grow (ht : c.Tracks h i b v) {heap : Heap} (hs : i₁.Shows heap) (hg : i.Grows b.heap i₁ heap) :
    c.Tracks h i₁ { b with heap := heap } { v with heap := i₁.heap } ∧
      c.Leaves h i b i₁ { b with heap := heap } := by
  have hmade : ∀ {x}, c.heap.HasObject x → b.heap.HasObject x ∧ i.heap.HasObject x := fun hx =>
    ⟨ht.whole.object hx, ht.heap ▸ ht.alone.object hx⟩
  have hmadeList : ∀ {l}, c.heap.HasList l → b.heap.HasList l ∧ i.heap.HasList l := fun hl =>
    ⟨ht.whole.list hl, ht.heap ▸ ht.alone.list hl⟩
  obtain ⟨more, more', htold, htold', hsame, hin⟩ := ht.told
  refine ⟨⟨?_, ?_, rfl, hs, ?_, ?_, ?_, ?_, ?_, ?_, ht.routes, ht.sends, ?_⟩, ?_⟩
  · exact ht.whole.step rfl rfl rfl (fun hr => hr) (fun _ => .refl _) hg.objects.made hg.lists.made
  · exact ht.alone.step rfl rfl rfl (fun hr => hr) (fun _ => .refl _)
      (fun hx => hg.objects.other (show i.heap.HasObject _ from ht.heap.symm ▸ hx))
      fun hl => hg.lists.other (show i.heap.HasList _ from ht.heap.symm ▸ hl)
  · exact fun hx => hg.objects.fixed (hmade hx).1 (hmade hx).2 (ht.fixed hx)
  · exact fun hl => hg.lists.fixed (hmadeList hl).1 (hmadeList hl).2 (ht.fixedList hl)
  · exact fun hx hin => ht.within hx ((hg.objects.fresh hin).resolve_right fun hnew => hnew (hmade hx).1)
  · exact fun hl hin => ht.withinList hl
      ((hg.lists.fresh hin).resolve_right fun hnew => hnew (hmadeList hl).1)
  · exact ht.handler.trans (Handler.rename_congr fun hroot => hg.name (ht.root hroot)).symm
  · exact fun hroot => hg.part (ht.root hroot)
  · refine ⟨more, more', htold, htold', hsame.trans (List.map_congr_left fun t ht => ?_), fun t ht => ?_⟩
    · exact congrArg (Told.mk t.callback) ((hin t ht).rename_eq hg.objects.agree hg.lists.agree).symm
    · exact (hin t ht).mono hg.objects.part hg.lists.part
  · exact ⟨fun _ _ => rfl, hg, fun _ _ => rfl, fun _ _ => rfl, [], (List.append_nil _).symm, nofun⟩

/-- The handler gets a root if it has none, and it is the same on both sides. -/
theorem rootOf (ht : c.Tracks h i b v) :
    ∃ i₁, c.Tracks h i₁ (b.rootOf h).2 (v.rootOf h).2 ∧ c.Leaves h i b i₁ (b.rootOf h).2 ∧
      i₁.part.objects (b.rootOf h).1 ∧ (v.rootOf h).1 = i₁.names.objects (b.rootOf h).1 := by
  have hhandler := ht.handler
  rw [Client.rootOf, Client.rootOf, hhandler, Handler.rename]
  cases hroot : (b.handler h).root with
  | some o => exact ⟨i, ht, .refl c h i b, ht.root hroot, rfl⟩
  | none =>
      have hnew := i.names_newObject b.heap (b.handler h).request.rootType
      obtain ⟨ht₁, hl₁⟩ := ht.grow (ht.shows.newObject (b.handler h).request.rootType)
        (ht.shows.grows_newObject _)
      obtain ⟨ht₂, hl₂⟩ := ht₁.modifyHandler (fun s => { s with root := some b.heap.nextObject })
        (fun s => { s with root := some i.heap.nextObject }) (fun _ => ⟨rfl, rfl, rfl, rfl⟩)
        (fun _ => ⟨rfl, rfl, rfl, rfl⟩) (by rw [Handler.rename, Handler.rename, Option.map_some, hnew])
        (fun heq => Option.some.inj heq ▸ .inr rfl)
      have hroot₂ : (Client.newObject (b.handler h).request.rootType v) =
          (i.heap.nextObject, { v with heap := (i.heap.newObject (b.handler h).request.rootType).2 }) := by
        rw [ht.heap]
        rfl
      refine ⟨_, ?_, hl₁.trans hl₂, .inr rfl, ?_⟩
      · dsimp only [Option.map_none]
        rw [hroot₂]
        exact ht₂
      · dsimp only [Option.map_none]
        rw [hroot₂]
        exact hnew.symm

/-- Objects have the same observers on both sides: those that were there at the beginning, or none. -/
theorem observers_rename (hc : c.Isolated) (ht : c.Tracks h i b v) (o : ObjectId) :
    (c.watch.get (.object (i.names.objects o))).entries = (c.watch.get (.object o)).entries := by
  by_cases ho : c.heap.HasObject o
  · rw [ht.fixed ho]
  · have hname : ¬c.heap.HasObject (i.names.objects o) := fun hin =>
      ho (i.names.objects.injective (ht.fixed hin) ▸ hin)
    rw [hc.observed ho, hc.observed hname]

theorem observersList_rename (hc : c.Isolated) (ht : c.Tracks h i b v) (l : ListId) :
    (c.watch.get (.list (i.names.lists l))).entries = (c.watch.get (.list l)).entries := by
  by_cases hl : c.heap.HasList l
  · rw [ht.fixedList hl]
  · have hname : ¬c.heap.HasList (i.names.lists l) := fun hin =>
      hl (i.names.lists.injective (ht.fixedList hin) ▸ hin)
    rw [hc.observedList hl, hc.observedList hname]

/-- The observers are told the same about a change, with the numbers that it has on each side. -/
theorem toldAbout_rename (hc : c.Isolated) (ht : c.Tracks h i b v) (n : Notification) :
    v.toldAbout (n.rename i.names) = (b.toldAbout n).map (.rename i.names) := by
  rw [toldAbout, toldAbout, ht.whole.watch, ht.alone.watch, List.map_map]
  cases n with
  | field o name =>
      have hsame : (c.watch.get (.object (i.names.objects o))).callbacksFor name =
          (c.watch.get (.object o)).callbacksFor name := by
        rw [Observers.callbacksFor, ht.observers_rename hc]
        rfl
      rw [Notification.rename, Watch.calls, Watch.calls, hsame, List.map_map, List.map_map]
      rfl
  | list l changes =>
      have hsame : (c.watch.get (.list (i.names.lists l))).callbacks = (c.watch.get (.list l)).callbacks := by
        rw [Observers.callbacks, ht.observersList_rename hc]
        rfl
      rw [Notification.rename, Watch.calls, Watch.calls, hsame, List.flatMap_map,
        List.map_flatMap, List.map_flatMap]
      apply List.flatMap_congr
      intro change _
      rw [List.map_map, List.map_map]
      rfl

theorem concerns_toldAbout (ht : c.Tracks h i b v) {n : Notification} (hn : i.part.HoldsNotice n) :
    ∀ t ∈ b.toldAbout n, t.Concerns h i.part ∧ i.part.HoldsEvent t.event := by
  intro t hin
  obtain ⟨⟨k, e⟩, hcall, rfl⟩ := List.mem_map.1 hin
  cases n with
  | field o name =>
      obtain ⟨k', hk, heq⟩ := List.mem_map.1 hcall
      cases heq
      obtain ⟨a, rfl⟩ := ht.whole.named.observer _ k (mem_callbacks_of_mem_callbacksFor hk)
      exact ⟨hn, hn⟩
  | list l changes =>
      obtain ⟨change, hchange, hcall⟩ := List.mem_flatMap.1 hcall
      obtain ⟨k', hk, heq⟩ := List.mem_map.1 hcall
      cases heq
      obtain ⟨a, rfl⟩ := ht.whole.named.observer _ k hk
      exact ⟨hn.1, hn.1, hn.2 change hchange⟩

/-- Writing the root of the handler comes to the same on both sides. -/
theorem patch (hc : c.Isolated) (ht : c.Tracks h i b v) {r : ObjectId} (hr : i.part.objects r) (data : Json) :
    (v.patch recording (i.names.objects r) data).1 = (b.patch recording r data).1 ∧
      c.Moves h i b (b.patch recording r data).2 (v.patch recording (i.names.objects r) data).2 := by
  obtain ⟨i₁, he⟩ := (writes_patch b.plans r data b.heap).echo _ ht.shows hr
  have hwrites := he.writes
  have hplans : v.plans = b.plans := ht.alone.plans.trans ht.whole.plans.symm
  rw [Goal.rename, he.grows.name hr, ht.heap] at hwrites
  have houtcome := Yields.outcome_eq hwrites.runs
  have hpatch : v.patch recording (i.names.objects r) data = ((outcome (Live.patch b.plans data r) b.heap).1,
      notifyAll recording ((outcome (Live.patch b.plans data r) b.heap).2.2.map (.rename i₁.names))
        { v with heap := i₁.heap }) := by
    change ((outcome (Live.patch v.plans data (i.names.objects r)) v.heap).1,
      notifyAll recording (outcome (Live.patch v.plans data (i.names.objects r)) v.heap).2.2
        { v with heap := (outcome (Live.patch v.plans data (i.names.objects r)) v.heap).2.1 }) = _
    rw [hplans, houtcome]
  obtain ⟨ht₁, hl₁⟩ := ht.grow he.shows he.grows
  rw [hpatch]
  refine ⟨rfl, i₁, ?_⟩
  have hconcerns : ∀ t ∈ (outcome (Live.patch b.plans data r) b.heap).2.2.flatMap b.toldAbout,
      t.Concerns h i₁.part ∧ i₁.part.HoldsEvent t.event := by
    intro t hin
    obtain ⟨n, hn, hin⟩ := List.mem_flatMap.1 hin
    exact ht₁.concerns_toldAbout (he.notices n hn) t hin
  obtain ⟨ht₂, hl₂⟩ := ht₁.hear hc _ (fun t hin => (hconcerns t hin).1) fun t hin => (hconcerns t hin).2
  have htold : ((outcome (Live.patch b.plans data r) b.heap).2.2.map (.rename i₁.names)).flatMap
      ({ v with heap := i₁.heap } : Session κ μ).toldAbout =
        ((outcome (Live.patch b.plans data r) b.heap).2.2.flatMap b.toldAbout).map (.rename i₁.names) := by
    rw [List.flatMap_map, List.map_flatMap]
    exact List.flatMap_congr fun n _ => ht₁.toldAbout_rename hc n
  rw [notifyAll_recording, htold]
  have hwhole : (b.patch recording r data).2 =
      ({ b with heap := (outcome (Live.patch b.plans data r) b.heap).2.1 } : Session κ μ).hear
        ((outcome (Live.patch b.plans data r) b.heap).2.2.flatMap b.toldAbout) :=
    notifyAll_recording ..
  rw [hwhole]
  exact ⟨ht₂, hl₁.trans hl₂⟩

/-- The handler ends in the same way on both sides. -/
theorem finish (hc : c.Isolated) (ht : c.Tracks h i b v) (ending : Ending) :
    c.Moves h i b (b.finish recording h ending) (v.finish recording h ending) := by
  have hstate : (v.handler h).state = (b.handler h).state := by
    rw [ht.handler]
    rfl
  rw [Client.finish, Client.finish, hstate]
  split
  · exact ht.stay
  · have hkept : ∀ s : Handler (Callback κ), (ending.close s).KeepsCalls s := fun s =>
      ⟨ending.closing.id s, ending.closing.onData s, ending.closing.onError s, ending.closing.onCompleted s⟩
    obtain ⟨ht₁, hl₁⟩ :=
      ht.modifyHandler ending.close ending.close hkept hkept (by cases ending <;> rfl) fun hroot =>
      ht.root (ending.closing.root _ ▸ hroot)
    have hcallbacks : ending.callbacks ((v.modifyHandler h ending.close).handler h) =
        ending.callbacks ((b.modifyHandler h ending.close).handler h) := by
      rw [ht₁.handler]
      cases ending <;> rfl
    have hconcerns : ∀ t ∈ (ending.callbacks ((b.modifyHandler h ending.close).handler h)).map
        fun k => (⟨k, ending.event⟩ : Told κ), t.Concerns h i.part ∧ i.part.HoldsEvent t.event := by
      refine List.forall_mem_map.2 fun k hk => ?_
      obtain ⟨role, a, -, rfl⟩ := ht₁.whole.named.callbacks_end h ending k hk
      exact ⟨rfl, by cases ending <;> trivial⟩
    obtain ⟨ht₂, hl₂⟩ := ht₁.hear hc _ (fun t hin => (hconcerns t hin).1) fun t hin => (hconcerns t hin).2
    have hevent : (fun k : Callback κ => (⟨k, ending.event⟩ : Told κ).rename i.names) =
        fun k => ⟨k, ending.event⟩ := by
      cases ending <;> rfl
    rw [List.map_map, Function.comp_def, hevent] at ht₂
    dsimp only
    rw [tell_recording, tell_recording, hcallbacks]
    exact ⟨i, ht₂, hl₁.trans hl₂⟩

/-- The operation of the handler is no longer routed. -/
theorem unroute (ht : c.Tracks h i b v) (hid : c.routes.get? id = some h) :
    c.Tracks h i (b.unroute id) (v.unroute id) ∧ c.Leaves h i b i (b.unroute id) := by
  have hroute : ∀ (b : Session κ μ) {other k}, (b.unroute id).routes.get? other = some k →
      b.routes.get? other = some k := by
    intro b other k hroute
    rw [get?_unroute] at hroute
    split at hroute
    · cases hroute
    · exact hroute
  refine ⟨{ ht with
    whole := ht.whole.step rfl rfl rfl (hroute b) (fun _ => .refl _) (fun hx => hx) fun hl => hl
    alone := ht.alone.step rfl rfl rfl (hroute v) (fun _ => .refl _) (fun hx => hx) fun hl => hl
    routes := fun other hother => ?_ }, ?_⟩
  · rw [get?_unroute, get?_unroute, ht.routes other hother]
  · refine ⟨fun _ _ => rfl, .refl _ _, fun other hother => ?_, fun _ _ => rfl, [],
      (List.append_nil _).symm, nofun⟩
    rw [get?_unroute, if_neg]
    rintro rfl
    exact hother hid

/-- A message for the operation of the handler is handed over. -/
theorem send (ht : c.Tracks h i b v) (hid : c.routes.get? id = some h) (message : ClientMessage)
    (hmessage : message.id? = some id) :
    c.Tracks h i (b.send message).2 (v.send message).2 ∧ c.Leaves h i b i (b.send message).2 := by
  refine ⟨{ ht with
    whole := ht.whole.step rfl rfl rfl (fun hr => hr) (fun _ => .refl _) (fun hx => hx) fun hl => hl
    alone := ht.alone.step rfl rfl rfl (fun hr => hr) (fun _ => .refl _) (fun hx => hx) fun hl => hl
    sends := fun other hother => ?_ }, ?_⟩
  · rw [sendsFor_send, sendsFor_send, ht.sends other hother, ht.whole.isOpen, ht.alone.isOpen]
  · refine ⟨fun _ _ => rfl, .refl _ _, fun _ _ => rfl, fun other hother => ?_, [],
      (List.append_nil _).symm, nofun⟩
    rw [sendsFor_send, if_neg, List.append_nil]
    rintro heq
    exact hother (Option.some.inj (hmessage.symm.trans heq) ▸ hid)

/-- The server is told that the operation is given up, if it is routed still. -/
theorem giveUp (ht : c.Tracks h i b v) (hid : c.routes.get? id = some h) :
    c.Moves h i b (b.giveUp id) (v.giveUp id) := by
  have hcontains : v.routes.contains id = b.routes.contains id := by
    rw [Table.contains, ht.routes id hid]
    rfl
  rw [Client.giveUp, Client.giveUp, hcontains]
  split
  · obtain ⟨ht₁, hl₁⟩ := ht.unroute hid
    obtain ⟨ht₂, hl₂⟩ := ht₁.send hid (.complete id) rfl
    exact ⟨i, ht₂, hl₁.trans hl₂⟩
  · exact ht.stay

theorem state_eq (ht : c.Tracks h i b v) : (v.handler h).state = (b.handler h).state := by
  rw [ht.handler]
  rfl

/-- The callbacks for data are told which fields of the root changed. -/
theorem tellData (hc : c.Isolated) (ht : c.Tracks h i b v) {r : ObjectId} (hr : i.part.objects r)
    (changes : List String) :
    c.Moves h i b (b.tell recording (b.handler h).onData (.data r changes))
      (v.tell recording (v.handler h).onData (.data (i.names.objects r) changes)) := by
  have hconcerns : ∀ t ∈ (b.handler h).onData.map fun k => (⟨k, .data r changes⟩ : Told κ),
      t.Concerns h i.part ∧ i.part.HoldsEvent t.event := by
    refine List.forall_mem_map.2 fun k hk => ?_
    obtain ⟨a, rfl⟩ := ht.whole.named.data h k hk
    exact ⟨rfl, hr⟩
  obtain ⟨ht₁, hl₁⟩ := ht.hear hc _ (fun t hin => (hconcerns t hin).1) fun t hin => (hconcerns t hin).2
  rw [List.map_map] at ht₁
  rw [tell_recording, tell_recording, ht.handler]
  exact ⟨i, ht₁, hl₁⟩

theorem failWithErrors (hc : c.Isolated) (ht : c.Tracks h i b v) (errors : Option Json) :
    c.Moves h i b (b.failWithErrors recording h errors) (v.failWithErrors recording h errors) := by
  cases errors with
  | none => exact ht.stay
  | some payload => exact ht.finish hc (.failed (.server payload))

/-- The handler takes a payload. -/
theorem receive (hc : c.Isolated) (ht : c.Tracks h i b v) (payload : Json) :
    c.Moves h i b (b.receive recording h payload) (v.receive recording h payload) := by
  rw [Client.receive, Client.receive, ht.state_eq]
  split
  · obtain ⟨i₁, ht₁, hl₁, hr, hroot⟩ := ht.rootOf
    refine hl₁.moves ?_
    dsimp only
    cases (Response.ofPayload payload).data with
    | none => exact ht₁.failWithErrors hc _
    | some data =>
        obtain ⟨hresult, i₂, ht₂, hl₂⟩ := ht₁.patch hc hr data
        rw [← hroot] at hresult ht₂
        dsimp only
        rcases hb : (b.rootOf h).2.patch recording (b.rootOf h).1 data with ⟨result, b₂⟩
        rcases hv : (v.rootOf h).2.patch recording (v.rootOf h).1 data with ⟨result', v₂⟩
        rw [hb] at hresult ht₂ hl₂
        rw [hv] at hresult ht₂
        subst hresult
        refine hl₂.moves ?_
        cases result' with
        | error e => exact ht₂.finish hc (.failed (.patch e))
        | ok changes =>
            have htell := ht₂.tellData hc (hl₂.grows.part hr) changes
            rw [hl₂.grows.name hr, ← hroot] at htell
            exact htell.trans fun i₃ ht₃ => ht₃.failWithErrors hc _
  · exact ht.stay

/-- **A message for the handler** does the same on both sides. -/
theorem dispatch (hc : c.Isolated) (ht : c.Tracks h i b v) (hid : c.routes.get? id = some h)
    {message : ServerMessage} (hmessage : message.id? = some id) :
    c.Moves h i b (b.dispatch recording message) (v.dispatch recording message) := by
  have hroutes := ht.routes id hid
  have howner : ∀ {k}, b.routes.get? id = some k → k = h := fun hroute =>
    Option.some.inj ((ht.whole.route hroute).symm.trans hid)
  cases message with
  | next other payload =>
      cases hmessage
      rw [Client.dispatch, Client.dispatch, hroutes]
      cases hroute : b.routes.get? id with
      | none => exact ht.stay
      | some k =>
          obtain rfl := howner hroute
          refine (ht.receive hc payload).trans fun i₁ ht₁ => ?_
          dsimp only
          rw [ht₁.state_eq]
          split
          · exact ht₁.giveUp hid
          · exact ht₁.stay
  | error other payload =>
      cases hmessage
      rw [Client.dispatch, Client.dispatch, hroutes]
      cases hroute : b.routes.get? id with
      | none => exact ht.stay
      | some k =>
          obtain rfl := howner hroute
          obtain ⟨ht₁, hl₁⟩ := ht.unroute hid
          exact Moves.trans ⟨i, ht₁, hl₁⟩ fun i₁ ht₁ => ht₁.finish hc (.failed (.server payload))
  | complete other =>
      cases hmessage
      rw [Client.dispatch, Client.dispatch, hroutes]
      cases hroute : b.routes.get? id with
      | none => exact ht.stay
      | some k =>
          obtain rfl := howner hroute
          obtain ⟨ht₁, hl₁⟩ := ht.unroute hid
          exact Moves.trans ⟨i, ht₁, hl₁⟩ fun i₁ ht₁ => ht₁.finish hc .completed
  | _ => cases hmessage

end Tracks

end Client

end GraphClient.Live
