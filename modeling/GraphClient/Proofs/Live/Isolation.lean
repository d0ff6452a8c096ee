import GraphClient.Proofs.Live.Alone
import GraphClient.Proofs.Live.Lifecycle
import Mathlib.Algebra.BigOperators.Group.Finset.Piecewise
import Mathlib.Algebra.Order.BigOperators.Group.Finset

/-! Messages for several handlers, in any order. While callbacks only put down what they are told, every
handler goes its own way: what becomes of it is told by the messages for its operation alone. So the order
of messages for different operations does not matter, but for the numbers that new objects get. -/

namespace GraphClient.Live

/-- That what there is in a heap keeps its number. -/
structure Renaming.Fixes (ρ : Renaming) (h : Heap) : Prop where
  object : ∀ {x}, h.HasObject x → ρ.objects x = x
  list : ∀ {l}, h.HasList l → ρ.lists l = l

namespace Client

variable {κ μ : Type} {c b v b₁ v₁ : Session κ μ} {h k : HandlerId} {i j i₁ : Image} {id : String}

/-- The part of a handler, seen where it is. -/
def imageOf (c : Session κ μ) (h : HandlerId) : Image := ⟨c.partOf h, .same, c.heap⟩

namespace Isolated

theorem shows (hc : c.Isolated) (h : HandlerId) : (c.imageOf h).Shows c.heap where
  made hx := ⟨hc.made hx, hc.made hx⟩
  madeList hl := ⟨hc.madeList hl, hc.madeList hl⟩
  typeName _ := rfl
  fields {x} _ := by
    have hsame : Slot.rename .same = id := funext Slot.rename_same
    rw [imageOf, hsame]
    exact congrArg Table.mk (List.map_id _).symm
  list {l} _ := by
    rw [ObjectList.rename]
    exact congrArg (ObjectList.mk _ _) (List.map_id _).symm
  holds {x} hx e he := by
    obtain ⟨r, hr, hbelow⟩ := hx
    have hslot : c.heap.slot x e.1 = e.2 := Heap.slot_of_get? (Table.get?_of_mem hc.names he)
    cases hheld : e.2 with
    | object y =>
        refine ⟨r, hr, hbelow.tail ⟨e.1, ?_⟩⟩
        rw [hslot, hheld]
        exact List.mem_singleton_self y
    | list l => exact ⟨x, e.1, ⟨r, hr, hbelow⟩, hslot.trans hheld⟩
    | _ => trivial
  item hl y hy := by
    obtain ⟨x, name, ⟨r, hr, hbelow⟩, hslot⟩ := hl
    refine ⟨r, hr, hbelow.tail ⟨name, ?_⟩⟩
    rw [hslot]
    exact hy

theorem since (hc : c.Isolated) : c.Since c :=
  ⟨rfl, rfl, rfl, fun hr => hr, fun _ => rfl, fun hx => hx, fun hl => hl, hc.named⟩

theorem tracks (hc : c.Isolated) (h : HandlerId) : c.Tracks h (c.imageOf h) c c where
  whole := hc.since
  alone := hc.since
  heap := rfl
  shows := hc.shows h
  fixed _ := rfl
  fixedList _ := rfl
  within _ hx := hx
  withinList _ hl := hl
  handler := (Handler.rename_same _).symm
  root hr := ⟨_, hr, .refl⟩
  routes _ _ := rfl
  sends _ _ := rfl
  told := ⟨[], [], (List.append_nil _).symm, (List.append_nil _).symm, rfl, nofun⟩

end Isolated

/-- That a step has nothing to do with a handler. -/
structure Spares (c : Session κ μ) (k : HandlerId) (j : Image) (b b₁ : Session κ μ) : Prop where
  since : c.Since b₁
  handler : b₁.handler k = b.handler k
  object : ∀ {x}, j.part.objects x → b₁.heap.HasObject x ∧ b₁.heap.object x = b.heap.object x
  list : ∀ {l}, j.part.lists l → b₁.heap.HasList l ∧ b₁.heap.list l = b.heap.list l
  routes : ∀ id, c.routes.get? id = some k → b₁.routes.get? id = b.routes.get? id
  sends : ∀ id, c.routes.get? id = some k → b₁.sendsFor id = b.sendsFor id
  told : ∃ more, b₁.host.told = b.host.told ++ more ∧ ∀ t ∈ more, ¬t.Concerns k (c.partOf k)

/-- A step that has nothing to do with a handler need not be taken for it. -/
theorem Tracks.spared (ht : c.Tracks k j b v) (hs : c.Spares k j b b₁) : c.Tracks k j b₁ v where
  whole := hs.since
  alone := ht.alone
  heap := ht.heap
  shows := ht.shows.of_same hs.object hs.list
  fixed := ht.fixed
  fixedList := ht.fixedList
  within := ht.within
  withinList := ht.withinList
  handler := ht.handler.trans (congrArg (Handler.rename j.names) hs.handler.symm)
  root hr := ht.root (hs.handler ▸ hr)
  routes id hid := (ht.routes id hid).trans (hs.routes id hid).symm
  sends id hid := (ht.sends id hid).trans (hs.sends id hid).symm
  told := by
    classical
    obtain ⟨more, more', htold, htold', hsame, hin⟩ := ht.told
    obtain ⟨next, hnext, hnone⟩ := hs.told
    have hquiet : toldOf k (c.partOf k) (more ++ next) = toldOf k (c.partOf k) more := by
      rw [toldOf_append, List.append_right_eq_self]
      exact List.filter_eq_nil_iff.2 fun t ht => by simpa using hnone t ht
    refine ⟨more ++ next, more', by rw [hnext, htold, List.append_assoc], htold', ?_, ?_⟩
    · rw [hquiet]
      exact hsame
    · rw [hquiet]
      exact hin

/-- **A step for one handler has nothing to do with another one** whose part of the heap is apart. -/
theorem Leaves.spares (hc : c.Isolated) (hl : c.Leaves h i b i₁ b₁) (ht : c.Tracks h i₁ b₁ v₁)
    (htk : c.Tracks k j b v) (hne : h ≠ k) (hapart : ∀ {x}, i.part.objects x → ¬j.part.objects x)
    (hapartList : ∀ {l}, i.part.lists l → ¬j.part.lists l) : c.Spares k j b b₁ where
  since := ht.whole
  handler := hl.handlers k hne.symm
  object hx :=
    have hmade := (htk.shows.made hx).1
    ⟨hl.grows.objects.made hmade, hl.grows.object hmade fun hin => hapart hin hx⟩
  list hx :=
    have hmade := (htk.shows.madeList hx).1
    ⟨hl.grows.lists.made hmade, hl.grows.list hmade fun hin => hapartList hin hx⟩
  routes id hid := hl.routes id fun heq => hne (Option.some.inj (heq.symm.trans hid))
  sends id hid := hl.sends id fun heq => hne (Option.some.inj (heq.symm.trans hid))
  told := by
    obtain ⟨more, htold, hmore⟩ := hl.told
    refine ⟨more, htold, fun t hin hconcerns => ?_⟩
    have howner := hmore t hin
    obtain ⟨callback, event⟩ := t
    cases callback with
    | handler other role a => exact hne (howner.symm.trans hconcerns)
    | observer a =>
        cases event with
        | field o name => exact hc.apart hne (ht.within (hc.made hconcerns) howner) hconcerns
        | list l change => exact hc.apartList hne (ht.withinList (hc.madeList hconcerns) howner) hconcerns
        | _ => exact howner

/-- The handler that a message is for. -/
def addressee? (c : Session κ μ) (message : ServerMessage) : Option HandlerId :=
  message.id?.bind c.routes.get?

/-- The handlers that messages can be for. -/
def routed (c : Session κ μ) : Finset HandlerId := c.routes.values.toFinset

theorem mem_routed (hid : c.routes.get? id = some h) : h ∈ c.routed :=
  List.mem_toFinset.2 (List.mem_map_of_mem (Table.mem_of_get? hid))

/-- That every handler is in a session as it is in one of its own, and that all that is new belongs to one
of them. -/
structure Split (c b : Session κ μ) (alone : HandlerId → Session κ μ) (i : HandlerId → Image) : Prop where
  tracks : ∀ h, c.Tracks h (i h) b (alone h)
  apart : ∀ {h k x}, h ≠ k → (i h).part.objects x → ¬(i k).part.objects x
  apartList : ∀ {h k l}, h ≠ k → (i h).part.lists l → ¬(i k).part.lists l
  unrouted : ∀ id, c.routes.get? id = none → b.routes.get? id = none ∧ b.sendsFor id = c.sendsFor id
  told : ∃ told, b.host.told = c.host.told ++ told
  size : ∑ h ∈ c.routed, (alone h).heap.objects.size + c.heap.objects.size =
    b.heap.objects.size + c.routed.card * c.heap.objects.size

variable {alone : HandlerId → Session κ μ} {images : HandlerId → Image} {message : ServerMessage}

theorem Isolated.split (hc : c.Isolated) : c.Split c (fun _ => c) c.imageOf where
  tracks := hc.tracks
  apart := hc.apart
  apartList := hc.apartList
  unrouted _ hid := ⟨hid, rfl⟩
  told := ⟨[], (List.append_nil _).symm⟩
  size := by rw [Finset.sum_const_nat fun _ _ => rfl, Nat.add_comm]

/-- A message that is for no handler does nothing to any. -/
theorem Split.aside (hs : c.Split b alone images) (hnone : c.addressee? message = none) :
    c.Split (b.dispatch recording message) alone images := by
  have hstep : ∀ {b₁}, b₁.handlers = b.handlers → b₁.heap = b.heap → b₁.plans = b.plans → b₁.watch = b.watch →
      b₁.isOpen = b.isOpen → b₁.routes = b.routes → (∀ id, b₁.sendsFor id = b.sendsFor id) →
      b₁.host.told = b.host.told → c.Split b₁ alone images := by
    intro b₁ hhandlers hheap hplans hwatch hopen hroutes hsends htold
    have hhandler : ∀ k, b₁.handler k = b.handler k := fun k => by rw [handler, hhandlers]; rfl
    refine ⟨fun k => ?_, hs.apart, hs.apartList, fun id hid => ?_, ?_, ?_⟩
    · have ht := hs.tracks k
      have hsince : c.Since b₁ := ht.whole.step hplans hwatch hopen (fun hr => hroutes ▸ hr)
        (fun k => hhandler k ▸ .refl _) (fun hx => hheap.symm ▸ hx) fun hl => hheap.symm ▸ hl
      refine ht.spared ⟨hsince, hhandler k, fun hx => ?_, fun hl => ?_, fun id _ => by rw [hroutes],
        fun id _ => hsends id, [], by rw [htold, List.append_nil], List.forall_mem_nil _⟩
      · rw [hheap]
        exact ⟨(ht.shows.made hx).1, rfl⟩
      · rw [hheap]
        exact ⟨(ht.shows.madeList hl).1, rfl⟩
    · rw [hroutes, hsends]
      exact hs.unrouted id hid
    · rw [htold]
      exact hs.told
    · rw [hheap]
      exact hs.size
  have hdropped : ∀ {id}, message.id? = some id → b.routes.get? id = none := by
    intro id hid
    rw [addressee?, hid] at hnone
    exact (hs.unrouted id hnone).1
  cases message with
  | ping payload =>
      refine hstep rfl rfl rfl rfl rfl rfl (fun id => ?_) rfl
      have hnone : (ClientMessage.pong payload).id? ≠ some id := (Option.some_ne_none id).symm
      exact (sendsFor_send ..).trans ((congrArg _ (if_neg hnone)).trans (List.append_nil _))
  | connectionAck payload => exact hs
  | pong payload => exact hs
  | next id payload =>
      rw [dispatch, hdropped rfl]
      exact hs
  | error id payload =>
      rw [dispatch, hdropped rfl]
      exact hs
  | complete id =>
      rw [dispatch, hdropped rfl]
      exact hs

/-- A message for a handler is one for its own session. -/
theorem Split.own (hc : c.Isolated) (hs : c.Split b alone images) (howner : c.addressee? message = some h) :
    ∃ images', c.Split (b.dispatch recording message)
      (Function.update alone h ((alone h).dispatch recording message)) images' := by
  obtain ⟨id, hmessage, hid⟩ := Option.bind_eq_some_iff.1 howner
  obtain ⟨i₁, ht, hl⟩ := (hs.tracks h).dispatch hc hid hmessage
  have hfresh : ∀ {k x}, k ≠ h → i₁.part.objects x → ¬(images k).part.objects x := by
    intro k x hk hx hx'
    rcases hl.grows.objects.fresh hx with hold | hnew
    · exact hs.apart hk.symm hold hx'
    · exact hnew ((hs.tracks k).shows.made hx').1
  have hfreshList : ∀ {k l}, k ≠ h → i₁.part.lists l → ¬(images k).part.lists l := by
    intro k l hk hx hx'
    rcases hl.grows.lists.fresh hx with hold | hnew
    · exact hs.apartList hk.symm hold hx'
    · exact hnew ((hs.tracks k).shows.madeList hx').1
  refine ⟨Function.update images h i₁, fun k => ?_, fun {k k' x} hne => ?_, fun {k k' l} hne => ?_,
    fun other hother => ?_, ?_, ?_⟩
  · by_cases hk : k = h
    · subst hk
      rw [Function.update_self, Function.update_self]
      exact ht
    · rw [Function.update_of_ne hk, Function.update_of_ne hk]
      exact (hs.tracks k).spared (hl.spares hc ht (hs.tracks k) (Ne.symm hk) (hs.apart (Ne.symm hk))
        (hs.apartList (Ne.symm hk)))
  · rw [Function.update_apply, Function.update_apply]
    split_ifs with hk hk'
    · exact absurd (hk.trans hk'.symm) hne
    · exact hfresh hk'
    · exact fun hx hx' => hfresh hk hx' hx
    · exact hs.apart hne
  · rw [Function.update_apply, Function.update_apply]
    split_ifs with hk hk'
    · exact absurd (hk.trans hk'.symm) hne
    · exact hfreshList hk'
    · exact fun hx hx' => hfreshList hk hx' hx
    · exact hs.apartList hne
  · have hne : c.routes.get? other ≠ some h := by
      rw [hother]
      exact nofun
    rw [hl.routes other hne, hl.sends other hne]
    exact hs.unrouted other hother
  · obtain ⟨told, htold⟩ := hs.told
    obtain ⟨more, hmore, -⟩ := hl.told
    exact ⟨told ++ more, by rw [hmore, htold, List.append_assoc]⟩
  · have hsize := hs.size
    have hgrown := hl.grows.size
    rw [(hs.tracks h).heap, ht.heap] at hgrown
    have hupdate : ∑ k ∈ c.routed,
        (Function.update alone h ((alone h).dispatch recording message) k).heap.objects.size +
        (alone h).heap.objects.size = ∑ k ∈ c.routed, (alone k).heap.objects.size +
          ((alone h).dispatch recording message).heap.objects.size := by
      rw [← Finset.sum_erase_add _ _ (mem_routed hid), ← Finset.sum_erase_add (a := h) c.routed
        (fun k => (alone k).heap.objects.size) (mem_routed hid), Function.update_self, Nat.add_right_comm]
      congr 2
      exact Finset.sum_congr rfl fun k hk => by rw [Function.update_of_ne (Finset.ne_of_mem_erase hk)]
    omega

/-- **Every handler goes its own way.** Whatever messages come, each handler is at the end as it is if it gets
its messages alone. -/
theorem Split.dispatchAll (hc : c.Isolated) (hs : c.Split b alone images) (messages : List ServerMessage) :
    ∃ images', c.Split (b.dispatchAll recording messages)
      (fun h => (alone h).dispatchAll recording (messages.filter fun m => c.addressee? m = some h))
        images' := by
  induction messages generalizing b alone images with
  | nil => exact ⟨images, hs⟩
  | cons message rest ih =>
      cases howner : c.addressee? message with
      | none =>
          have hnone : ∀ h, (message :: rest).filter (fun m => c.addressee? m = some h) =
              rest.filter fun m => c.addressee? m = some h := fun h =>
            List.filter_cons_of_neg (by rw [howner]; exact nofun)
          simp only [hnone]
          exact ih (hs.aside howner)
      | some h =>
          have hstep : (fun k => (alone k).dispatchAll recording
                ((message :: rest).filter fun m => c.addressee? m = some k)) =
              fun k =>
                (Function.update alone h ((alone h).dispatch recording message) k).dispatchAll recording
                (rest.filter fun m => c.addressee? m = some k) := by
            funext k
            by_cases hk : k = h
            · subst hk
              rw [List.filter_cons, if_pos (decide_eq_true howner), Function.update_self]
              rfl
            · rw [List.filter_cons, if_neg, Function.update_of_ne hk]
              rw [howner, decide_eq_true_iff, Option.some.injEq]
              exact Ne.symm hk
          obtain ⟨images₁, hs₁⟩ := hs.own hc howner
          rw [hstep]
          exact ih hs₁

/-- In every state that a program reaches, nothing is shared. -/
theorem Coherent.isolated {P : HandlerId → Prop} (hc : c.Coherent P)
    (hobserved : ∀ {o}, ¬c.heap.HasObject o → (c.watch.get (.object o)).entries = [])
    (hobservedList : ∀ {l}, ¬c.heap.HasList l → (c.watch.get (.list l)).entries = []) : c.Isolated where
  owner := hc.wired.owner
  named := hc.named
  observed := hobserved
  observedList := hobservedList
  names := hc.rooted.sound.tidy.names
  made := fun ⟨_, hr, hbelow⟩ => hc.rooted.sound.tidy.hasObject_of_below (hc.rooted.made hr) hbelow
  madeList := fun ⟨_, _, _, hslot⟩ => hc.rooted.sound.tidy.list hslot
  apart := by
    rintro h k x hne ⟨r, hr, hbelow⟩ ⟨r', hr', hbelow'⟩
    refine hc.rooted.sound.tidy.not_below_loose (hc.rooted.loose hr) (hc.rooted.loose hr') ?_ hbelow hbelow'
    rintro rfl
    exact hne (hc.rooted.once hr hr')
  apartList := by
    rintro h k l hne ⟨x, name, ⟨r, hr, hbelow⟩, hslot⟩ ⟨y, other, ⟨r', hr', hbelow'⟩, hslot'⟩
    obtain ⟨rfl, -⟩ := hc.rooted.sound.tidy.listOnce hslot hslot'
    refine hc.rooted.sound.tidy.not_below_loose (hc.rooted.loose hr) (hc.rooted.loose hr') ?_ hbelow hbelow'
    rintro rfl
    exact hne (hc.rooted.once hr hr')

/-- The messages for a handler are those for its operation. -/
theorem Isolated.filter_addressee (hc : c.Isolated) {messages messages' : List ServerMessage}
    (hsame : ∀ id, messages'.filter (fun m => m.id? = some id) = messages.filter fun m => m.id? = some id)
    (h : HandlerId) :
    messages'.filter (fun m => c.addressee? m = some h) =
      messages.filter fun m => c.addressee? m = some h := by
  by_cases hrouted : ∃ id, c.routes.get? id = some h
  · obtain ⟨id, hid⟩ := hrouted
    have heq : (fun m => decide (c.addressee? m = some h)) =
        fun m : ServerMessage => decide (m.id? = some id) := by
      funext m
      refine decide_eq_decide.2 ⟨fun howner => ?_, fun hm => ?_⟩
      · obtain ⟨other, hm, hother⟩ := Option.bind_eq_some_iff.1 howner
        exact hm.trans ((hc.owner hother).symm.trans (hc.owner hid))
      · rw [addressee?, hm]
        exact hid
    rw [heq]
    exact hsame id
  · have hnone : ∀ messages : List ServerMessage,
        messages.filter (fun m => c.addressee? m = some h) = [] := by
      intro messages
      refine List.filter_eq_nil_iff.2 fun m _ howner => hrouted ?_
      obtain ⟨id, -, hid⟩ := Option.bind_eq_some_iff.1 (of_decide_eq_true howner)
      exact ⟨id, hid⟩
    rw [hnone, hnone]

/-- Two sessions in which a handler is as in a third one have the same trees below its root. -/
theorem Tracks.snapshot_eq {b' : Session κ μ} {r : ObjectId} (ht : c.Tracks h i b v) (ht' : c.Tracks h j b' v)
    (hr : (b.handler h).root = some r) (hsize : b'.heap.objects.size = b.heap.objects.size) :
    b'.heap.snapshot ((i.names.trans j.names.symm).objects r) = b.heap.snapshot r := by
  have hhandler : b'.handler h = (b.handler h).rename (i.names.trans j.names.symm) :=
    Handler.eq_rename (ht'.handler.symm.trans ht.handler)
  have hr' : (b'.handler h).root = some ((i.names.trans j.names.symm).objects r) := by
    rw [hhandler, Handler.rename, hr]
    rfl
  have htree := ht.shows.treeWithin (ht.root hr) b.heap.objects.size
  have htree' := ht'.shows.treeWithin (ht'.root hr') b.heap.objects.size
  have hname : j.names.objects ((i.names.trans j.names.symm).objects r) = i.names.objects r :=
    j.names.objects.apply_symm_apply _
  rw [hname, ht'.heap, ← ht.heap, htree] at htree'
  rw [Heap.snapshot, Heap.snapshot, hsize]
  exact htree'.symm

/-- **The order of messages for different operations does not matter.** After the same messages for every
operation, in whatever order they were mixed, every handler is the same with the same tree below its root;
its callbacks and the observers of what is below its root were told the same, in the same order; the same
operations are routed; and the same was handed over for each of them: but for the numbers of new objects. -/
theorem isolated_from_order (hc : c.Isolated) {messages messages' : List ServerMessage}
    (hsame : ∀ id, messages'.filter (fun m => m.id? = some id) = messages.filter fun m => m.id? = some id) :
    let b := c.dispatchAll recording messages
    let b' := c.dispatchAll recording messages'
    (∃ told told', b.host.told = c.host.told ++ told ∧ b'.host.told = c.host.told ++ told' ∧
      ∀ h, ∃ ρ : Renaming, ρ.Fixes c.heap ∧ b'.handler h = (b.handler h).rename ρ ∧
        (∀ r, (b.handler h).root = some r → b'.heap.snapshot (ρ.objects r) = b.heap.snapshot r) ∧
        toldOf h (c.partOf h) told' = (toldOf h (c.partOf h) told).map (.rename ρ)) ∧
      (∀ id, b'.routes.get? id = b.routes.get? id) ∧ ∀ id, b'.sendsFor id = b.sendsFor id := by
  intro b b'
  obtain ⟨images, hs⟩ := hc.split.dispatchAll hc messages
  obtain ⟨images', hs'⟩ := hc.split.dispatchAll hc messages'
  simp only [hc.filter_addressee hsame] at hs'
  have hsize : b'.heap.objects.size = b.heap.objects.size :=
    Nat.add_right_cancel (hs'.size.symm.trans hs.size)
  have hid : ∀ id, b'.routes.get? id = b.routes.get? id ∧ b'.sendsFor id = b.sendsFor id := by
    intro id
    cases hroute : c.routes.get? id with
    | none =>
        obtain ⟨hgone, hsends⟩ := hs.unrouted id hroute
        obtain ⟨hgone', hsends'⟩ := hs'.unrouted id hroute
        exact ⟨hgone'.trans hgone.symm, hsends'.trans hsends.symm⟩
    | some h =>
        exact ⟨((hs'.tracks h).routes id hroute).symm.trans ((hs.tracks h).routes id hroute),
          ((hs'.tracks h).sends id hroute).symm.trans ((hs.tracks h).sends id hroute)⟩
  obtain ⟨told, htold⟩ := hs.told
  obtain ⟨told', htold'⟩ := hs'.told
  refine ⟨⟨told, told', htold, htold', fun h => ?_⟩, fun id => (hid id).1, fun id => (hid id).2⟩
  have ht := hs.tracks h
  have ht' := hs'.tracks h
  refine ⟨(images h).names.trans (images' h).names.symm, ⟨fun hx => ?_, fun hl => ?_⟩,
    Handler.eq_rename (ht'.handler.symm.trans ht.handler), fun r hr => ht.snapshot_eq ht' hr hsize, ?_⟩
  · exact (congrArg _ (ht.fixed hx)).trans ((Equiv.symm_apply_eq _).2 (ht'.fixed hx).symm)
  · exact (congrArg _ (ht.fixedList hl)).trans ((Equiv.symm_apply_eq _).2 (ht'.fixedList hl).symm)
  · obtain ⟨more, alone, hmore, halone, heq, -⟩ := ht.told
    obtain ⟨more', alone', hmore', halone', heq', -⟩ := ht'.told
    obtain rfl := List.append_cancel_left (hmore.symm.trans htold)
    obtain rfl := List.append_cancel_left (hmore'.symm.trans htold')
    obtain rfl := List.append_cancel_left (halone.symm.trans halone')
    exact Told.map_eq_rename (heq'.symm.trans heq)

/-- A program that executes two handlers. -/
def pairProgram : Program Unit Unit :=
  .just (.create ⟨"Home", "query Home { title }", "Query", []⟩ [()] [()] [()]) <|
    .just (.create ⟨"News", "query News { title }", "Query", []⟩ [()] [()] [()]) <|
      .just (.execute ⟨0⟩) <| .just (.execute ⟨1⟩) .done

theorem isolated_pair : (pairProgram.run (.begin (samplePlans []) ())).Isolated := by
  have hunwatched : (pairProgram.run (.begin (samplePlans []) ())).watch = .empty := rfl
  refine (pairProgram.coherent (Plans.distinct_of_build build_sampleSchema build_samplePlans) ()).isolated
    (fun _ => ?_) fun _ => ?_ <;> rw [hunwatched] <;> rfl

/-- Messages for the two handlers, in one order. -/
def pairMessages : List ServerMessage :=
  [.next (toString 2) (.object [("title", .string "b")]), .complete (toString 2),
    .next (toString 1) (.object [("title", .string "a")])]

/-- The same messages, mixed in another order. -/
def pairMessagesMixed : List ServerMessage :=
  [.next (toString 2) (.object [("title", .string "b")]),
    .next (toString 1) (.object [("title", .string "a")]), .complete (toString 2)]

/-- Of two handlers, each is the same whether the server ends the second before or after it sends data for the
first. -/
theorem isolated_from_order_of_pair :
    let c := pairProgram.run (.begin (samplePlans []) ())
    let b := c.dispatchAll recording pairMessages
    let b' := c.dispatchAll recording pairMessagesMixed
    c.Isolated ∧
      (∃ told told', b.host.told = c.host.told ++ told ∧ b'.host.told = c.host.told ++ told' ∧
        ∀ h, ∃ ρ : Renaming, ρ.Fixes c.heap ∧ b'.handler h = (b.handler h).rename ρ ∧
          (∀ r, (b.handler h).root = some r → b'.heap.snapshot (ρ.objects r) = b.heap.snapshot r) ∧
          toldOf h (c.partOf h) told' = (toldOf h (c.partOf h) told).map (.rename ρ)) ∧
      (∀ id, b'.routes.get? id = b.routes.get? id) ∧ ∀ id, b'.sendsFor id = b.sendsFor id := by
  refine ⟨isolated_pair, isolated_from_order isolated_pair fun id => ?_⟩
  by_cases hfirst : toString 1 = id
  · have hsecond : toString 2 ≠ id := by
      subst hfirst
      decide
    simp only [pairMessages, pairMessagesMixed, List.filter_cons, List.filter_nil, ServerMessage.id?,
      Option.some.injEq, hfirst, hsecond, decide_true, decide_false, Bool.false_eq_true, if_true, if_false]
  · simp only [pairMessages, pairMessagesMixed, List.filter_cons, List.filter_nil, ServerMessage.id?,
      Option.some.injEq, hfirst, decide_false, Bool.false_eq_true, if_false]

end Client

end GraphClient.Live
