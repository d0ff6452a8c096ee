import GraphClient.Proofs.Live.Sessions

/-! The steps of a session, and the calls that are made of them. Every call is a chain of steps and of runs
of callbacks, so what callbacks keep to is kept by every call, and thereby by callbacks that call. -/

namespace GraphClient.Live

namespace Client

variable {κ μ : Type} {c c' c₁ c₂ : Session κ μ} {P P' E F : HandlerId → Prop} {S : String → Prop}
  {h k : HandlerId} {id : String}

/-- That plans, objects, and roots and callbacks of handlers are the same, and observers as well but for
new ones. -/
structure SameStore (c c' : Session κ μ) : Prop where
  plans : c'.plans = c.plans
  heap : c'.heap = c.heap
  watch : ∀ target, ∀ k ∈ (c'.watch.get target).callbacks,
    k ∈ (c.watch.get target).callbacks ∨ ∃ b, k = .observer b
  root : ∀ h, (c'.handler h).root = (c.handler h).root
  onData : ∀ h, (c'.handler h).onData = (c.handler h).onData
  onError : ∀ h, (c'.handler h).onError = (c.handler h).onError
  onCompleted : ∀ h, (c'.handler h).onCompleted = (c.handler h).onCompleted

theorem SameStore.rooted (hs : c.SameStore c') (hr : c.Rooted) : c'.Rooted where
  distinct := hs.plans ▸ hr.distinct
  sound := by
    rw [hs.heap, hs.plans]
    exact hr.sound
  made hroot := by
    rw [hs.root] at hroot
    rw [hs.heap]
    exact hr.made hroot
  loose hroot := by
    rw [hs.root] at hroot
    rw [hs.heap]
    exact hr.loose hroot
  once hroot hroot' := by
    rw [hs.root] at hroot hroot'
    exact hr.once hroot hroot'

theorem SameStore.named (hs : c.SameStore c') (hn : c.Named) : c'.Named where
  observer target k hk := (hs.watch target k hk).elim (hn.observer target k) id
  data h := by rw [hs.onData]; exact hn.data h
  error h := by rw [hs.onError]; exact hn.error h
  completed h := by rw [hs.onCompleted]; exact hn.completed h

/-- A handler whose state is the same as well has persisted. -/
theorem SameStore.persists (hs : c.SameStore c') (hstarted : (c'.handler h).state ≠ .idle)
    (hid : (c'.handler h).id = (c.handler h).id) (hrequest : (c'.handler h).request = (c.handler h).request) :
    (c.handler h).Persists (c'.handler h) :=
  ⟨hstarted, hid, hrequest, hs.onError h ▸ List.prefix_rfl, hs.onCompleted h ▸ List.prefix_rfl⟩

/-- A step that leaves handlers and operations alone. -/
structure Aside (c c' : Session κ μ) : Prop where
  store : c.SameStore c'
  handlers : c'.handlers = c.handlers
  routes : c'.routes = c.routes
  next : c'.nextOperation = c.nextOperation
  sends : ∃ more, c'.sends = c.sends ++ more ∧ ∀ s ∈ more, s.message.id? = none
  taken : c.TakesUnrouted c'

namespace Aside

theorem handler (ha : c.Aside c') (h : HandlerId) : c'.handler h = c.handler h := by
  rw [Client.handler, ha.handlers]
  rfl

theorem sameWiring (ha : c.Aside c') : c.SameWiring c' where
  handler h := by
    rw [ha.handler]
    exact ⟨rfl, rfl⟩
  request _ := by rw [ha.handler]
  routes := ha.routes
  next := ha.next
  sends id := by
    obtain ⟨more, hsends, hnone⟩ := ha.sends
    rw [sendsFor, hsends, List.filter_append, sendsFor, List.append_right_eq_self, List.filter_eq_nil_iff]
    intro s hs
    rw [hnone s hs]
    simp

theorem later (ha : c.Aside c') (S : String → Prop) : c.Later S c' where
  plans := ha.store.plans
  kept h hstarted := by
    rw [ha.handler]
    exact ⟨hstarted, rfl, rfl, List.prefix_rfl, List.prefix_rfl⟩
  ended h _ := by
    rw [ha.handler]
    exact ⟨.inl rfl, rfl, rfl⟩
  frozen h r _ _ := by
    rw [ha.store.heap]
    exact .refl _ _
  wire id _ := ha.sameWiring.wireStep S id
  sends := by
    obtain ⟨more, hsends, -⟩ := ha.sends
    exact ⟨more, hsends.symm⟩

theorem turn (ha : c.Aside c') (hc : c.Coherent P) (S : String → Prop)
    (hheard : ∀ h, ¬E h → c'.heard h = c.heard h) (hheardEnd : ∀ h, ¬F h → c'.heardEnd h = c.heardEnd h) :
    c.Turn S P E F c' where
  coherent := ⟨ha.sameWiring.wired hc.wired, ha.store.rooted hc.rooted, ha.store.named hc.named,
    hc.quiet.later hc.wired (ha.later S) ha.taken⟩
  later := ha.later S
  silent h hE _ := hheard h hE
  announces h hF := .of_heardEnd (hheardEnd h hF) fun hnot => .inl (by rwa [Over, ha.handler])

/-- A step of which no callback is told. -/
theorem turn_of_told (ha : c.Aside c') (hc : c.Coherent P) (S : String → Prop) (E F : HandlerId → Prop)
    (htold : c'.host.told = c.host.told) : c.Turn S P E F c' :=
  ha.turn hc S (fun _ _ => by rw [heard, htold]; rfl) fun _ _ => by rw [heardEnd, htold]; rfl

end Aside

/-- A step that differs in nothing but what the host knows and whether the connection is open. -/
theorem Aside.of_host (host : Journal κ μ) (isOpen : Bool)
    (htaken : c.TakesUnrouted { c with host := host, isOpen := isOpen }) :
    c.Aside { c with host := host, isOpen := isOpen } where
  store := ⟨rfl, rfl, fun _ _ => .inl, fun _ => rfl, fun _ => rfl, fun _ => rfl, fun _ => rfl⟩
  handlers := rfl
  routes := rfl
  next := rfl
  sends := ⟨[], (List.append_nil _).symm, nofun⟩
  taken := htaken

/-- That a callback may be told something. -/
def Admitted (E F : HandlerId → Prop) (b : Callback κ) : Prop :=
  ∀ h, (b.isOf h = true → E h) ∧ (b.endsOf h = true → F h)

theorem turn_jot {b : Callback κ} (hc : c.Coherent P) (S : String → Prop) (e : Event) (hb : Admitted E F b) :
    c.Turn S P E F (c.jot b e) := by
  have ha : c.Aside (c.jot b e) := .of_host _ c.isOpen (.of_eq rfl)
  have hpass : ∀ p : Told κ → Bool, p ⟨b, e⟩ = false →
      (c.jot b e).host.told.filter p = c.host.told.filter p := by
    intro p hp
    change List.filter p (_ ++ [_]) = _
    rw [List.filter_append, List.filter_cons, hp]
    exact List.append_nil _
  exact ha.turn hc S (fun h hE => hpass _ (Bool.eq_false_iff.2 fun hof => hE ((hb h).1 hof)))
    fun h hF => hpass _ (Bool.eq_false_iff.2 fun hof => hF ((hb h).2 hof))

/-- That what is done when a callback is told something is a turn. -/
def Obeys (S : String → Prop) (react : Reaction (Callback κ) (Journal κ μ)) : Prop :=
  ∀ (P : HandlerId → Prop) (k : Callback κ) (e : Event) (c : Session κ μ), c.Coherent P →
    (c.jot k e).Turn S P (fun _ => False) (fun _ => False) (react k e c)

variable {react : Reaction (Callback κ) (Journal κ μ)}

theorem Obeys.turn (hr : Obeys S react) {b : Callback κ} (hc : c.Coherent P) (e : Event)
    (hb : Admitted E F b) : c.Turn S P E F (react b e c) :=
  (turn_jot hc S e hb).trans hc.wired ((hr P b e c hc).weaken (fun _ => False.elim) fun _ => False.elim)

theorem Obeys.tell (hr : Obeys S react) (hc : c.Coherent P) (e : Event) {callbacks : List (Callback κ)}
    (hb : ∀ b ∈ callbacks, Admitted E F b) : c.Turn S P E F (c.tell react callbacks e) := by
  induction callbacks generalizing c with
  | nil => exact .refl hc S E F
  | cons b rest ih =>
      have hfirst := hr.turn hc e (hb b List.mem_cons_self)
      exact hfirst.trans hc.wired (ih hfirst.coherent fun b hb' => hb b (List.mem_cons_of_mem _ hb'))

/-- What the callbacks for the end of a handler hear when they are told about it. -/
theorem Obeys.heardEnd_tell (hr : Obeys S react) (hc : c.Coherent P) (hover : c.Over h) (e : Event)
    {callbacks : List (Callback κ)} (hb : ∀ b ∈ callbacks, b.endsOf h = true) :
    (c.tell react callbacks e).heardEnd h = c.heardEnd h ++ callbacks.map fun b => ⟨b, e⟩ := by
  induction callbacks generalizing c with
  | nil => exact (List.append_nil _).symm
  | cons b rest ih =>
      have hjot : (c.jot b e).heardEnd h = c.heardEnd h ++ [⟨b, e⟩] := by
        change List.filter _ (_ ++ [_]) = _
        rw [List.filter_append, List.filter_cons, if_pos (hb b List.mem_cons_self)]
        rfl
      have hall : c.Turn S P (fun _ => True) (fun _ => True) (react b e c) :=
        hr.turn hc e fun _ => ⟨fun _ => trivial, fun _ => trivial⟩
      have hsame := (hr P b e c hc).announces h id
      rw [List.map_cons, List.append_cons, ← hjot, ← hsame.ended hover]
      exact ih hall.coherent (hall.later.still_over hover) fun b hb' => hb b (List.mem_cons_of_mem _ hb')

theorem mem_callbacks_of_mem_callbacksFor {os : Observers (Callback κ)} {field : String} {b : Callback κ}
    (hb : b ∈ os.callbacksFor field) : b ∈ os.callbacks := by
  obtain ⟨o, ho, heq⟩ := List.mem_map.1 hb
  exact List.mem_map.2 ⟨o, (List.mem_filter.1 ho).1, heq⟩

theorem Named.admitted_observer (hn : c.Named) {target : Target} {b : Callback κ}
    (hb : b ∈ (c.watch.get target).callbacks) : Admitted E F b := by
  obtain ⟨a, rfl⟩ := hn.observer target b hb
  exact fun h => ⟨nofun, nofun⟩

/-- Steps that are turns one by one are a turn. -/
theorem Turn.foldl {α : Type} {step : Session κ μ → α → Session κ μ}
    (hstep : ∀ (c : Session κ μ) a, c.Coherent P → c.Turn S P E F (step c a)) (hc : c.Coherent P)
    (items : List α) : c.Turn S P E F (items.foldl step c) := by
  induction items generalizing c with
  | nil => exact .refl hc S E F
  | cons a rest ih => exact (hstep c a hc).trans hc.wired (ih (hstep c a hc).coherent)

theorem Obeys.notify (hr : Obeys S react) (hc : c.Coherent P) (n : Notification) :
    c.Turn S P E F (c.notify react n) := by
  cases n with
  | field o name =>
      exact hr.tell hc _ fun b hb => hc.named.admitted_observer (mem_callbacks_of_mem_callbacksFor hb)
  | list l changes =>
      refine Turn.foldl (fun c' change hc' => hr.tell hc' _ fun b hb => ?_) hc changes
      exact hc.named.admitted_observer hb

theorem Obeys.notifyAll (hr : Obeys S react) (hc : c.Coherent P) (pending : List Notification) :
    c.Turn S P E F (c.notifyAll react pending) :=
  Turn.foldl (fun _ n hc' => hr.notify hc' n) hc pending

/-- A step on the objects below the root of a handler that has not ended. -/
theorem turn_heap (hc : c.Coherent P) (S : String → Prop) {heap : Heap} (hnot : ¬c.Over h)
    (hsound : heap.Sound c.plans) (he : c.heap.Evolves heap)
    (hfrozen : ∀ k r, k ≠ h → (c.handler k).root = some r → c.heap.Frozen heap r) :
    c.Turn S P E F { c with heap := heap } where
  coherent := by
    have hs : c.SameWiring { c with heap := heap } :=
      ⟨fun _ => ⟨rfl, rfl⟩, fun _ => rfl, rfl, rfl, fun _ => rfl⟩
    have hr := hc.rooted
    exact ⟨hs.wired hc.wired, ⟨hr.distinct, hsound, fun hroot => he.objects (hr.made hroot),
      fun hroot => he.loose (hr.made hroot) (hr.loose hroot), hr.once⟩, ⟨hc.named.observer, hc.named.data,
      hc.named.error, hc.named.completed⟩, hc.quiet⟩
  later :=
    ⟨rfl, fun _ hstarted => ⟨hstarted, rfl, rfl, List.prefix_rfl, List.prefix_rfl⟩,
      fun _ _ => ⟨.inl rfl, rfl, rfl⟩,
      fun k r hover hroot => hfrozen k r (fun heq => hnot (heq ▸ hover)) hroot, fun id _ => .refl S id _,
      List.prefix_rfl⟩
  silent _ _ _ := rfl
  announces _ _ := .of_heardEnd rfl .inl

/-- Writing the root of a handler that has not ended. -/
theorem Obeys.patch (hr : Obeys S react) (hc : c.Coherent P) (hnot : ¬c.Over h) {r : ObjectId}
    (hroot : (c.handler h).root = some r) (data : Json) : c.Turn S P E F (c.patch react r data).2 := by
  have hwrites := writes_patch c.plans r data c.heap
  have hwrite : c.Turn S P E F { c with heap := (outcome (Live.patch c.plans data r) c.heap).2.1 } := by
    refine turn_heap hc S hnot ?_ hwrites.evolves fun k r' hne hroot' => ?_
    · exact (hwrites.sound_meets hc.rooted.distinct hc.rooted.sound (hc.rooted.made hroot)).1
    · refine hwrites.frozen hc.rooted.sound.tidy (hc.rooted.made hroot') (hc.rooted.loose hroot')
        (hc.rooted.loose hroot) ?_
      rintro rfl
      exact hne (hc.rooted.once hroot' hroot)
  exact hwrite.trans hc.wired (hr.notifyAll hwrite.coherent _)

theorem handler_rootOf (h k : HandlerId) (c : Session κ μ) :
    (c.rootOf h).2.handler k =
      if k = h then { c.handler k with root := some (c.rootOf h).1 } else c.handler k := by
  unfold rootOf
  split
  · rename_i o hroot
    split
    · rename_i hk
      subst hk
      rw [← hroot]
    · rfl
  · exact handler_modifyHandler ..

/-- That a handler has got a new root. -/
structure Plants (h : HandlerId) (c c' : Session κ μ) : Prop where
  handler : ∀ k, c'.handler k =
    if k = h then { c.handler k with root := some c.heap.nextObject } else c.handler k
  heap : ∃ typeName, c'.heap = (c.heap.newObject typeName).2
  plans : c'.plans = c.plans
  watch : c'.watch = c.watch
  routes : c'.routes = c.routes
  next : c'.nextOperation = c.nextOperation
  sends : c'.sends = c.sends
  host : c'.host = c.host

namespace Plants

theorem sameWiring (hp : c.Plants h c') : c.SameWiring c' where
  handler k := by rw [hp.handler k]; split <;> exact ⟨rfl, rfl⟩
  request {k _} _ := by rw [hp.handler k]; split <;> rfl
  routes := hp.routes
  next := hp.next
  sends id := by rw [sendsFor, hp.sends]; rfl

/-- A root is the new object, or it was there before. -/
theorem root (hp : c.Plants h c') {r : ObjectId} (hroot : (c'.handler k).root = some r) :
    (k = h ∧ r = c.heap.nextObject) ∨ (c.handler k).root = some r := by
  rw [hp.handler k] at hroot
  split at hroot
  · rename_i hk
    exact .inl ⟨hk, (Option.some.inj hroot).symm⟩
  · exact .inr hroot

theorem rooted (hp : c.Plants h c') (hr : c.Rooted) : c'.Rooted := by
  obtain ⟨typeName, hheap⟩ := hp.heap
  have he : c.heap.Evolves c'.heap := hheap ▸ .newObject c.heap typeName
  refine ⟨hp.plans ▸ hr.distinct, ?_, fun hroot => ?_, fun hroot => ?_, fun hroot hroot' => ?_⟩
  · rw [hheap, hp.plans]
    exact hr.sound.newObject typeName
  · rcases hp.root hroot with ⟨-, rfl⟩ | hold
    · rw [hheap, Heap.HasObject, Heap.size_newObject]
      exact Nat.lt_succ_self _
    · exact he.objects (hr.made hold)
  · rcases hp.root hroot with ⟨-, rfl⟩ | hold
    · rw [hheap]
      exact hr.sound.tidy.loose_newObject typeName
    · exact he.loose (hr.made hold) (hr.loose hold)
  · rcases hp.root hroot with ⟨rfl, rfl⟩ | hold <;> rcases hp.root hroot' with ⟨rfl, hr'⟩ | hold'
    · rfl
    · exact absurd (hr.made hold') c.heap.not_hasObject_nextObject
    · exact absurd (hr.made (hr' ▸ hold)) c.heap.not_hasObject_nextObject
    · exact hr.once hold hold'

theorem named (hp : c.Plants h c') (hn : c.Named) : c'.Named where
  observer := hp.watch ▸ hn.observer
  data k := by rw [hp.handler k]; split <;> exact hn.data k
  error k := by rw [hp.handler k]; split <;> exact hn.error k
  completed k := by rw [hp.handler k]; split <;> exact hn.completed k

theorem later (hp : c.Plants h c') (hr : c.Rooted) (hnot : ¬c.Over h) (S : String → Prop) : c.Later S c' where
  plans := hp.plans
  kept k hstarted := by
    rw [hp.handler k]
    split <;> exact ⟨hstarted, rfl, rfl, List.prefix_rfl, List.prefix_rfl⟩
  ended k hover := by
    rw [hp.handler k, if_neg fun hk : k = h => hnot (hk ▸ hover)]
    exact ⟨.inl rfl, rfl, rfl⟩
  frozen k r _ hroot := by
    obtain ⟨typeName, hheap⟩ := hp.heap
    rw [hheap]
    exact .newObject hr.sound.tidy (hr.made hroot) typeName
  wire id _ := hp.sameWiring.wireStep S id
  sends := hp.sends ▸ List.prefix_rfl

theorem turn (hp : c.Plants h c') (hc : c.Coherent P) (hnot : ¬c.Over h) (S : String → Prop) :
    c.Turn S P E F c' where
  coherent :=
    ⟨hp.sameWiring.wired hc.wired, hp.rooted hc.rooted, hp.named hc.named,
      hc.quiet.later hc.wired (hp.later hc.rooted hnot S) (.of_eq (by rw [hp.host]))⟩
  later := hp.later hc.rooted hnot S
  silent _ _ _ := by rw [heard, hp.host]; rfl
  announces k _ := by
    refine .of_heardEnd (by rw [heardEnd, hp.host]; rfl) fun hk => .inl ?_
    rwa [Over, (hp.sameWiring.handler k).1]

end Plants

/-- Giving a root to a handler that has not ended. -/
theorem turn_rootOf (hc : c.Coherent P) (S : String → Prop) (hnot : ¬c.Over h) :
    c.Turn S P E F (c.rootOf h).2 := by
  have hhandler := fun k => handler_rootOf h k c
  cases hroot : (c.handler h).root with
  | some o =>
      have hsame : c.rootOf h = (o, c) := by rw [rootOf, hroot]
      rw [hsame]
      exact .refl hc S E F
  | none =>
      have hnew : c.rootOf h = (c.heap.nextObject, { c with
          heap := (c.heap.newObject (c.handler h).request.rootType).2
          handlers := c.handlers.modify h.number fun s => { s with root := some c.heap.nextObject } }) := by
        rw [rootOf, hroot]
        rfl
      rw [hnew] at hhandler ⊢
      exact Plants.turn ⟨hhandler, ⟨_, rfl⟩, rfl, rfl, rfl, rfl, rfl, rfl⟩ hc hnot S

theorem Concludes.later (hs : c.Concludes S h c') (hst : c.SameStore c')
    (hover : c.Over h → ((c'.handler h).state = (c.handler h).state ∨ (c'.handler h).state = .disposed) ∧
      (c'.handler h).error = (c.handler h).error)
    (hsends : c.sends <+: c'.sends) : c.Later S c' where
  plans := hst.plans
  kept k hstarted := by
    refine hst.persists ?_ (hs.id_eq k) (hs.request_eq k)
    by_cases hk : k = h
    · exact hk ▸ hs.state_ne rfl
    · rwa [hs.others k hk]
  ended k hk := by
    refine and_assoc.1 ⟨?_, hst.root k⟩
    by_cases heq : k = h
    · subst heq
      exact hover hk
    · rw [hs.others k heq]
      exact ⟨.inl rfl, rfl⟩
  frozen k r _ _ := by
    rw [hst.heap]
    exact .refl _ _
  wire id _ := hs.wire id
  sends := hsends

/-- The end of a handler, of which its callbacks are still to be told unless it was disposed of. -/
theorem Concludes.turn (hs : c.Concludes S h c') (hst : c.SameStore c') (hc : c.Coherent P)
    (hP : ∀ id, c'.routes.get? id = some h → P' h) (hothers : ∀ k, k ≠ h → P k → P' k)
    (hover : c.Over h → ((c'.handler h).state = (c.handler h).state ∨ (c'.handler h).state = .disposed) ∧
      (c'.handler h).error = (c.handler h).error)
    (hsends : c.sends <+: c'.sends) (htaken : c.TakesUnrouted c') (htold : c'.host.told = c.host.told)
    (hF : ¬c.Over h → (c'.handler h).state = .disposed ∨ F h) : c.Turn S P' E F c' where
  coherent :=
    have hl := hs.later hst hover hsends
    ⟨hs.wired hc.wired hP hothers, hst.rooted hc.rooted, hst.named hc.named,
      hc.quiet.later hc.wired hl htaken⟩
  later := hs.later hst hover hsends
  silent _ _ _ := by rw [heard, htold]; rfl
  announces k hk := by
    refine .of_heardEnd (by rw [heardEnd, htold]; rfl) fun hnot => ?_
    by_cases heq : k = h
    · subst heq
      exact .inr ((hF hnot).resolve_right hk)
    · rw [Over, hs.others k heq]
      exact .inl hnot

theorem Subscribes.later (hs : c.Subscribes h c') (hst : c.SameStore c') (hw : c.Wired P)
    (hsends : c.sends <+: c'.sends) (S : String → Prop) : c.Later S c' where
  plans := hst.plans
  kept k hstarted := by
    have hk : k ≠ h := fun heq => hstarted (heq ▸ hs.idle)
    rw [hs.others k hk]
    exact ⟨hstarted, rfl, rfl, List.prefix_rfl, List.prefix_rfl⟩
  ended k hover := by
    have hk : k ≠ h := fun heq => hover.not_idle (heq ▸ hs.idle)
    rw [hs.others k hk]
    exact ⟨.inl rfl, rfl, rfl⟩
  frozen k r _ _ := by
    rw [hst.heap]
    exact .refl _ _
  wire id hissued := hs.wireStep hw S hissued
  sends := hsends

/-- The beginning of an operation, which may be its end as well. -/
theorem Subscribes.turn (hs : c.Subscribes h c') (hst : c.SameStore c') (hc : c.Coherent P)
    (hsends : c.sends <+: c'.sends) (S : String → Prop) (htaken : c.TakesUnrouted c')
    (htold : c'.host.told = c.host.told) (hF : c'.Over h → F h) : c.Turn S P E F c' where
  coherent :=
    have hl := hs.later hst hc.wired hsends S
    ⟨hs.wired hc.wired, hst.rooted hc.rooted, hst.named hc.named, hc.quiet.later hc.wired hl htaken⟩
  later := hs.later hst hc.wired hsends S
  silent _ _ _ := by rw [heard, htold]; rfl
  announces k hk := by
    refine .of_heardEnd (by rw [heardEnd, htold]; rfl) fun hnot => .inl ?_
    by_cases heq : k = h
    · subst heq
      exact fun hover => hk (hF hover)
    · rwa [Over, hs.others k heq]

/-- **The callbacks for an end.** Once a handler has ended, those of its callbacks that its state calls
for are told, and with that its end is announced. -/
theorem Obeys.announce (hr : Obeys S react) (hw : c.Wired P') (hstep : c.Turn S P E (· = h) c₁)
    (htold : c₁.host.told = c.host.told) (hnot : ¬c.Over h) (hover : c₁.Over h) (e : Event)
    {callbacks : List (Callback κ)}
    (hb : ∀ b ∈ callbacks, ∃ role a, role ≠ .data ∧ b = .handler h role a)
    (ha : (c₁.handler h).Announced (callbacks.map fun b => ⟨b, e⟩)) :
    c.Turn S P E (fun _ => False) (c₁.tell react callbacks e) := by
  have hof : ∀ b ∈ callbacks, ∀ k, (b.isOf k = true → k = h) ∧ (b.endsOf k = true → k = h) := by
    intro b hb' k
    obtain ⟨role, a, -, rfl⟩ := hb b hb'
    exact ⟨fun hk => (of_decide_eq_true hk).symm,
      fun hk => (of_decide_eq_true (Bool.and_eq_true_iff.1 hk).1).symm⟩
  have hends : ∀ b ∈ callbacks, b.endsOf h = true := by
    intro b hb'
    obtain ⟨role, a, hrole, rfl⟩ := hb b hb'
    simp [Callback.endsOf, hrole]
  have htell : c₁.Turn S P (· = h) (· = h) (c₁.tell react callbacks e) := hr.tell hstep.coherent e hof
  have hall := hstep.later.trans hw htell.later
  refine ⟨htell.coherent, hall, fun k hE hk => ?_, fun k _ => ?_⟩
  · have hne : k ≠ h := fun heq => hnot (heq ▸ hk)
    exact (htell.silent k hne (hstep.later.still_over hk)).trans (hstep.silent k hE hk)
  · by_cases heq : k = h
    · subst heq
      refine ⟨fun hk => absurd hk hnot, fun _ => ⟨callbacks.map fun b => ⟨b, e⟩, ?_, ?_⟩⟩
      · rw [hr.heardEnd_tell hstep.coherent hover e hends, heardEnd, htold]
        rfl
      · obtain ⟨hstate, herror, -⟩ := htell.later.ended k hover
        exact ha.later hover (htell.later.kept k hover.not_idle) hstate herror
    · exact (hstep.announces k heq).trans hstep.later htell.later (htell.announces k heq)

end Client

end GraphClient.Live
