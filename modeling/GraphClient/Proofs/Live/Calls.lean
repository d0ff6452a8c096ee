import GraphClient.Proofs.Live.Turns

/-! Calls are turns. Each call either does nothing to operations, or begins one, or concludes one: by the
server's word, which unroutes it first, or by the client's own, which is told to the server at the end. -/

namespace GraphClient.Live

theorem Watch.get_set {κ : Type} (w : Watch κ) (target other : Target) (os : Observers κ) :
    (w.set target os).get other = if other = target then os else w.get other := by
  cases target <;> cases other <;> simp only [Watch.get, Watch.set, Arena.get_set, reduceCtorEq, if_false,
    Target.object.injEq, Target.list.injEq, ObjectId.number_inj, ListId.number_inj]

namespace Client

variable {κ μ : Type} {c c' c₀ c₁ : Session κ μ} {P P' E F : HandlerId → Prop} {S : String → Prop}
  {h k : HandlerId} {id : String} {react : Reaction (Callback κ) (Journal κ μ)}

/-! ### Ways to end -/

/-- That a change of a handler ends it and leaves all but its state and its error. -/
structure Closing (change : Handler (Callback κ) → Handler (Callback κ)) : Prop where
  ended : ∀ s, (change s).state.isTerminal = true
  id : ∀ s, (change s).id = s.id
  request : ∀ s, (change s).request = s.request
  root : ∀ s, (change s).root = s.root
  onData : ∀ s, (change s).onData = s.onData
  onError : ∀ s, (change s).onError = s.onError
  onCompleted : ∀ s, (change s).onCompleted = s.onCompleted

/-- How a handler ends if it is not disposed of. -/
inductive Ending
  | failed (error : HandlerError)
  | completed

namespace Ending

variable {κ : Type}

def close : Ending → Handler κ → Handler κ
  | failed error, s => { s with state := .errored, error := some error }
  | completed, s => { s with state := .completed }

/-- The callbacks that are told. -/
def callbacks : Ending → Handler κ → List κ
  | failed _, s => s.onError
  | completed, s => s.onCompleted

def event : Ending → Event
  | failed error => .error error
  | completed => .completed

theorem closing (ending : Ending) : @Closing κ ending.close := by
  cases ending <;> exact ⟨fun _ => rfl, fun _ => rfl, fun _ => rfl, fun _ => rfl, fun _ => rfl, fun _ => rfl,
    fun _ => rfl⟩

end Ending

/-- That a handler is about to end: its operation may have been unrouted, but it is the same itself. -/
structure Readies (S : String → Prop) (h : HandlerId) (c c₀ : Session κ μ) : Prop where
  handlers : c₀.handlers = c.handlers
  next : c₀.nextOperation = c.nextOperation
  plans : c₀.plans = c.plans
  heap : c₀.heap = c.heap
  watch : c₀.watch = c.watch
  told : c₀.host.told = c.host.told
  taken : c.TakesUnrouted c₀
  sends : c.sends <+: c₀.sends
  wire : ∀ id, c.WireStep S id c₀
  route : ∀ {id}, c₀.routes.get? id ≠ c.routes.get? id → c.routes.get? id = some h

namespace Readies

theorem refl (S : String → Prop) (h : HandlerId) (c : Session κ μ) : c.Readies S h c :=
  ⟨rfl, rfl, rfl, rfl, rfl, rfl, .of_eq rfl, List.prefix_rfl, fun _ => .refl _ _ _, fun hne => absurd rfl hne⟩

theorem handler (hr : c.Readies S h c₀) (k : HandlerId) : c₀.handler k = c.handler k := by
  rw [Client.handler, hr.handlers]
  rfl

/-- An operation that is no longer routed. -/
theorem unrouted (hr : c.Readies S h c₀) (hw : c.Wired P) (hroute : c.routes.get? id = some h)
    (hgone : c₀.routes.get? id = none) (other : String) : c₀.routes.get? other ≠ some h := by
  intro hother
  have hsame : c.routes.get? other = some h := by
    by_cases heq : c₀.routes.get? other = c.routes.get? other
    · rw [← heq, hother]
    · exact hr.route heq
  have hid := (hw.owner hroute).symm.trans (hw.owner hsame)
  rw [Option.some.injEq] at hid
  rw [← hid, hgone] at hother
  cases hother

variable {change : Handler (Callback κ) → Handler (Callback κ)}

theorem concludes (hr : c.Readies S h c₀) (hch : Closing change) :
    c.Concludes S h (c₀.modifyHandler h change) where
  others k hk := by rw [handler_modifyHandler_of_ne hk, hr.handler]
  id := by rw [handler_modifyHandler_self, hr.handler, hch.id]
  request := by rw [handler_modifyHandler_self, hr.handler, hch.request]
  ended := by
    rw [Over, handler_modifyHandler_self]
    exact hch.ended _
  next := hr.next
  wire := hr.wire
  route := hr.route

theorem sameStore (hr : c.Readies S h c₀) (hch : Closing change) :
    c.SameStore (c₀.modifyHandler h change) where
  plans := hr.plans
  heap := hr.heap
  watch target k hk := .inl (by rw [← hr.watch]; exact hk)
  root k := by
    rw [handler_modifyHandler, hr.handler]
    split
    · exact hch.root _
    · rfl
  onData k := by
    rw [handler_modifyHandler, hr.handler]
    split
    · exact hch.onData _
    · rfl
  onError k := by
    rw [handler_modifyHandler, hr.handler]
    split
    · exact hch.onError _
    · rfl
  onCompleted k := by
    rw [handler_modifyHandler, hr.handler]
    split
    · exact hch.onCompleted _
    · rfl

/-- The end of a handler. -/
theorem turn (hr : c.Readies S h c₀) (hch : Closing change) (hc : c.Coherent P)
    (hP : ∀ id, c₀.routes.get? id = some h → P' h) (hothers : ∀ k, k ≠ h → P k → P' k)
    (hdisposes : c.Over h → (change (c.handler h)).state = .disposed ∧
      (change (c.handler h)).error = (c.handler h).error)
    (hF : (change (c.handler h)).state = .disposed ∨ F h) :
    c.Turn S P' E F (c₀.modifyHandler h change) := by
  have hhandler : (c₀.modifyHandler h change).handler h = change (c.handler h) := by
    rw [handler_modifyHandler_self, hr.handler]
  refine (hr.concludes hch).turn (hr.sameStore hch) hc hP hothers (fun hover => ?_) hr.sends hr.taken hr.told
    fun _ => ?_
  · rw [hhandler]
    exact ⟨.inr (hdisposes hover).1, (hdisposes hover).2⟩
  · rwa [hhandler]

/-- The same for a handler that has ended before. -/
theorem turn_over (hr : c.Readies S h c₀) (hover : c.Over h) (hc : c.Coherent P)
    (hP : ∀ id, c₀.routes.get? id = some h → P' h) (hothers : ∀ k, k ≠ h → P k → P' k) :
    c.Turn S P' E F c₀ := by
  have hs : c.Concludes S h c₀ := ⟨fun k _ => hr.handler k, by rw [hr.handler], by rw [hr.handler],
    by rw [Over, hr.handler]; exact hover, hr.next, hr.wire, hr.route⟩
  have hst : c.SameStore c₀ := ⟨hr.plans, hr.heap, fun _ _ hk => .inl (hr.watch ▸ hk),
    fun k => by rw [hr.handler], fun k => by rw [hr.handler], fun k => by rw [hr.handler],
    fun k => by rw [hr.handler]⟩
  refine hs.turn hst hc hP hothers (fun _ => ?_) hr.sends hr.taken hr.told fun hnot => absurd hover hnot
  rw [hr.handler]
  exact ⟨.inl rfl, rfl⟩

end Readies

/-! ### Ending with callbacks -/

/-- Ends a handler, if it has not ended yet, and tells its callbacks. -/
def finish (react : Reaction (Callback κ) (Journal κ μ)) (h : HandlerId) (ending : Ending) (c : Session κ μ) :
    Session κ μ :=
  if (c.handler h).state.isTerminal then c
  else
    let c := c.modifyHandler h ending.close
    tell react (ending.callbacks (c.handler h)) ending.event c

theorem fail_eq_finish (react : Reaction (Callback κ) (Journal κ μ)) (h : HandlerId) (e : HandlerError)
    (c : Session κ μ) : c.fail react h e = c.finish react h (.failed e) := rfl

theorem complete_eq_finish (react : Reaction (Callback κ) (Journal κ μ)) (h : HandlerId) (c : Session κ μ) :
    c.complete react h = c.finish react h .completed := rfl

theorem finish_of_over (hover : c.Over h) (react : Reaction (Callback κ) (Journal κ μ)) (ending : Ending) :
    c.finish react h ending = c := if_pos hover

/-- A handler that ends announces it. -/
theorem Ending.announced (ending : Ending) (s : Handler (Callback κ)) :
    (ending.close s).Announced ((ending.callbacks (ending.close s)).map fun b => ⟨b, ending.event⟩) := by
  cases ending with
  | failed e => exact ⟨e, rfl, _, List.prefix_rfl, rfl⟩
  | completed => exact ⟨_, List.prefix_rfl, rfl⟩

theorem Named.callbacks_end (hn : c.Named) (h : HandlerId) (ending : Ending) :
    ∀ b ∈ ending.callbacks (c.handler h), ∃ role a, role ≠ .data ∧ b = .handler h role a := by
  intro b hb
  cases ending with
  | failed e =>
      obtain ⟨a, rfl⟩ := hn.error h b hb
      exact ⟨.error, a, nofun, rfl⟩
  | completed =>
      obtain ⟨a, rfl⟩ := hn.completed h b hb
      exact ⟨.completed, a, nofun, rfl⟩

/-- The end of a handler with its callbacks, once its operation is unrouted or while that is put off. -/
theorem Readies.finish (hr : c.Readies S h c₀) (hobeys : Obeys S react) (hc : c.Coherent P)
    (hP : ∀ id, c₀.routes.get? id = some h → P h) (ending : Ending) :
    c.Turn S P E (fun _ => False) (c₀.finish react h ending) := by
  by_cases hover : c.Over h
  · rw [finish_of_over (by rw [Over, hr.handler]; exact hover)]
    exact hr.turn_over hover hc hP fun _ _ => id
  · have hstep : c.Turn S P E (· = h) (c₀.modifyHandler h ending.close) :=
      hr.turn ending.closing hc hP (fun _ _ => id) (fun hin => absurd hin hover) (.inr rfl)
    have hhandler : (c₀.modifyHandler h ending.close).handler h = ending.close (c.handler h) := by
      rw [handler_modifyHandler_self, hr.handler]
    have hrun : c₀.finish react h ending = (c₀.modifyHandler h ending.close).tell react
        (ending.callbacks ((c₀.modifyHandler h ending.close).handler h)) ending.event := by
      rw [Client.finish, if_neg]
      rwa [hr.handler]
    rw [hrun]
    refine hobeys.announce hc.wired hstep hr.told hover ?_ ending.event
      (hstep.coherent.named.callbacks_end h ending) ?_
    · rw [Over, hhandler]
      exact ending.closing.ended _
    · rw [hhandler]
      exact ending.announced _

/-- Nothing is handed over for an operation while its handler ends after it was unrouted. -/
theorem Readies.unrouted_finish (hr : c.Readies S h c₀) (hobeys : Obeys S react) (hc : c.Coherent P)
    (hid : (c.handler h).id = some id) (hnone : ∀ other, c₀.routes.get? other ≠ some h)
    (hgone : c₀.routes.get? id = none) (ending : Ending) :
    (c₀.finish react h ending).routes.get? id = none ∧
      (c₀.finish react h ending).sendsFor id = c₀.sendsFor id := by
  by_cases hover : c.Over h
  · rw [finish_of_over (by rw [Over, hr.handler]; exact hover)]
    exact ⟨hgone, rfl⟩
  · have hstep : c.Turn S P (fun _ => True) (fun _ => True) (c₀.modifyHandler h ending.close) :=
      hr.turn ending.closing hc (fun other hother => absurd hother (hnone other)) (fun _ _ hin => hin)
        (fun hin => absurd hin hover) (.inr trivial)
    have hissued : (c₀.modifyHandler h ending.close).Issued id :=
      hstep.later.issued hc.wired ⟨h, hid⟩
    have htell : (c₀.modifyHandler h ending.close).Turn S P (fun _ => True) (fun _ => True)
        ((c₀.modifyHandler h ending.close).tell react
          (ending.callbacks ((c₀.modifyHandler h ending.close).handler h)) ending.event) :=
      hobeys.tell hstep.coherent _ fun _ _ _ => ⟨fun _ => trivial, fun _ => trivial⟩
    rw [Client.finish, if_neg (by rwa [hr.handler])]
    exact (htell.later.wire id hissued).unrouted hgone

/-! ### Responses -/

theorem Obeys.failWithErrors (hr : Obeys S react) (hc : c.Coherent P) (hP : P h) (errors : Option Json) :
    c.Turn S P E (fun _ => False) (c.failWithErrors react h errors) := by
  cases errors with
  | none => exact .refl hc S E _
  | some payload => exact (Readies.refl S h c).finish hr hc (fun _ _ => hP) (.failed (.server payload))

/-- What a subscribed handler does with a payload. -/
theorem Obeys.receive (hr : Obeys S react) (hc : c.Coherent P) (hP : P h) (payload : Json) :
    c.Turn S P E (fun _ => False) (c.receive react h payload) := by
  by_cases hstate : (c.handler h).state = .subscribed
  · have hnot : ¬c.Over h := by
      rw [Over, hstate]
      exact Bool.false_ne_true
    have hroot : c.Turn S P (· = h) (fun _ => False) (c.rootOf h).2 := turn_rootOf hc S hnot
    have hself := handler_rootOf h h c
    rw [if_pos rfl] at hself
    have hnot₁ : ¬(c.rootOf h).2.Over h := by
      rw [Over, hself]
      exact hnot
    have hrun : c.Turn S P (· = h) (fun _ => False) (c.receive react h payload) := by
      rw [Client.receive, if_pos hstate]
      refine hroot.trans hc.wired ?_
      dsimp only
      cases (Response.ofPayload payload).data with
      | none => exact hr.failWithErrors hroot.coherent hP _
      | some data =>
          have hpatch : (c.rootOf h).2.Turn S P (· = h) (fun _ => False)
              ((c.rootOf h).2.patch react (c.rootOf h).1 data).2 :=
            hr.patch hroot.coherent hnot₁ (by rw [hself]) data
          dsimp only
          rcases hout : (c.rootOf h).2.patch react (c.rootOf h).1 data with ⟨result, c₂⟩
          rw [hout] at hpatch
          refine hpatch.trans hroot.coherent.wired ?_
          cases result with
          | error e =>
              exact (Readies.refl S h c₂).finish hr hpatch.coherent (fun _ _ => hP) (.failed (.patch e))
          | ok changes =>
              have htell : c₂.Turn S P (· = h) (fun _ => False)
                  (c₂.tell react (c₂.handler h).onData (.data (c.rootOf h).1 changes)) := by
                refine hr.tell hpatch.coherent _ fun b hb k => ?_
                obtain ⟨a, rfl⟩ := hpatch.coherent.named.data h b hb
                exact ⟨fun hk => (of_decide_eq_true hk).symm, fun hk => by simp [Callback.endsOf] at hk⟩
              exact htell.trans hpatch.coherent.wired (hr.failWithErrors htell.coherent hP _)
    refine ⟨hrun.coherent, hrun.later, fun k _ hover => ?_, hrun.announces⟩
    exact hrun.silent k (fun heq => hnot (heq ▸ hover)) hover
  · rw [Client.receive, if_neg hstate]
    exact .refl hc S E _

/-! ### Giving up -/

theorem giveUp_of_routed (hroute : c.routes.get? id = some h) :
    c.giveUp id = { c with routes := c.routes.erase id, sends := c.sends ++ [⟨.complete id, c.isOpen⟩] } := by
  rw [giveUp, if_pos]
  · rfl
  · rw [Table.contains, hroute]
    rfl

theorem giveUp_of_unrouted (hroute : c.routes.get? id = none) : c.giveUp id = c := by
  rw [giveUp, if_neg]
  rw [Table.contains, hroute]
  exact Bool.false_ne_true

theorem get?_giveUp (c : Session κ μ) (id other : String) :
    (c.giveUp id).routes.get? other = if other = id then none else c.routes.get? other := by
  cases hroute : c.routes.get? id with
  | some h =>
      rw [giveUp_of_routed hroute]
      exact Table.get?_erase ..
  | none =>
      rw [giveUp_of_unrouted hroute]
      split
      · rename_i heq
        rw [heq, hroute]
      · rfl

theorem Readies.giveUp (hroute : c.routes.get? id = some h) (S : String → Prop) :
    c.Readies S h (c.giveUp id) := by
  have hroutes := get?_giveUp c id
  rw [giveUp_of_routed hroute] at hroutes ⊢
  refine ⟨rfl, rfl, rfl, rfl, rfl, rfl, .of_eq rfl, List.prefix_append _ _, fun other => ?_,
    fun {other} hne => ?_⟩
  · have hsends : ((c.unroute id).send (.complete id)).2.sendsFor other =
        c.sendsFor other ++ if some id = some other then [⟨.complete id, c.isOpen⟩] else [] :=
      sendsFor_send (.complete id) (c.unroute id) other
    by_cases heq : other = id
    · subst heq
      refine .inr ⟨by rw [hroute]; exact nofun, by rw [hroutes, if_pos rfl], .inl ⟨c.isOpen, ?_⟩⟩
      rwa [if_pos rfl] at hsends
    · refine .inl ⟨by rw [hroutes, if_neg heq], ?_⟩
      rwa [if_neg fun hid => heq (Option.some.inj hid).symm, List.append_nil] at hsends
  · by_cases heq : other = id
    · rw [heq, hroute]
    · rw [hroutes, if_neg heq] at hne
      exact absurd rfl hne

/-- The server's word that an operation has ended. -/
theorem Readies.served (hroute : c.routes.get? id = some h) (hS : S id) {message : ServerMessage}
    (hends : message.ends? = some id) : c.Readies S h ((c.take message).unroute id) := by
  have hroutes := get?_unroute (c.take message) id
  refine ⟨rfl, rfl, rfl, rfl, rfl, rfl, .take rfl rfl fun other hother => ?_,
    List.prefix_rfl, fun other => ?_, fun {other} hne => ?_⟩
  · rw [hends, Option.some.injEq] at hother
    rw [hroutes, if_pos hother.symm]
  · by_cases heq : other = id
    · subst heq
      exact .inr ⟨by rw [hroute]; exact nofun, by rw [hroutes, if_pos rfl], .inr ⟨hS, rfl⟩⟩
    · exact .inl ⟨by rw [hroutes, if_neg heq]; rfl, rfl⟩
  · by_cases heq : other = id
    · rw [heq, hroute]
    · rw [hroutes, if_neg heq] at hne
      exact absurd rfl hne

/-! ### Executing -/

/-- What subscribing does before any callback runs: with the operation routed, or with the handler failed
where the connection did not take the message. -/
def subscribed (h : HandlerId) (c : Session κ μ) : Session κ μ :=
  { c with
    nextOperation := c.nextOperation + 1
    handlers := c.handlers.modify h.number fun s =>
      { s with id := some (toString c.nextOperation), state := .subscribed }
    routes := c.routes.insert (toString c.nextOperation) h
    sends := c.sends ++ [⟨.subscribe (toString c.nextOperation) (c.handler h).request.payload, c.isOpen⟩] }

theorem handler_subscribed (h k : HandlerId) (c : Session κ μ) :
    (c.subscribed h).handler k =
      if k = h then { c.handler k with id := some (toString c.nextOperation), state := .subscribed }
      else c.handler k := handler_modifyHandler c h k _

theorem subscribe_eq (react : Reaction (Callback κ) (Journal κ μ)) (h : HandlerId) (c : Session κ μ) :
    c.subscribe react h =
      if c.isOpen then (some (toString c.nextOperation), c.subscribed h)
      else (none, ((c.subscribed h).unroute (toString c.nextOperation)).finish react h
        (.failed .closed)) := by
  have hrequest : ((c.subscribed h).handler h).request = (c.handler h).request := by
    rw [handler_subscribed, if_pos rfl]
  have hsend : ({ (c.subscribed h) with sends := c.sends } : Session κ μ).send
      (.subscribe (toString c.nextOperation) ((c.subscribed h).handler h).request.payload) =
      (c.isOpen, c.subscribed h) := by
    rw [hrequest]
    rfl
  rw [subscribe]
  generalize hsent : (send _ _ : Bool × Session κ μ) = out
  have hout : out = (c.isOpen, c.subscribed h) := hsent.symm.trans hsend
  rw [hout]
  cases c.isOpen <;> rfl

theorem sendsFor_subscribed (h : HandlerId) (c : Session κ μ) (id : String) :
    (c.subscribed h).sendsFor id = c.sendsFor id ++ if some (toString c.nextOperation) = some id then
      [⟨.subscribe (toString c.nextOperation) (c.handler h).request.payload, c.isOpen⟩] else [] :=
  sendsFor_send (.subscribe (toString c.nextOperation) (c.handler h).request.payload) c id

/-- What subscribing leads to, before any callback runs, if the connection does not take the message. -/
def refused (h : HandlerId) (c : Session κ μ) : Session κ μ :=
  ((c.subscribed h).unroute (toString c.nextOperation)).modifyHandler h (Ending.failed .closed).close

/-- Subscribing, when the handler is left with a route or has ended by a change. -/
theorem subscribes_of (hidle : (c.handler h).state = .idle)
    (hothers : ∀ k, k ≠ h → c'.handler k = (c.subscribed h).handler k)
    (hid : (c'.handler h).id = ((c.subscribed h).handler h).id)
    (hrequest : (c'.handler h).request = ((c.subscribed h).handler h).request)
    (hnext : c'.nextOperation = (c.subscribed h).nextOperation)
    (hroute : ∀ id, id ≠ toString c.nextOperation → c'.routes.get? id = (c.subscribed h).routes.get? id)
    (hsends : c'.sends = (c.subscribed h).sends)
    (hrouted : ((c'.handler h).state = .subscribed ∧ c'.routes.get? (toString c.nextOperation) = some h) ∨
      (c'.Over h ∧ c'.routes.get? (toString c.nextOperation) = none)) : c.Subscribes h c' where
  others k hk := by rw [hothers k hk, handler_subscribed, if_neg hk]
  idle := hidle
  id := by rw [hid, handler_subscribed, if_pos rfl]
  request := by rw [hrequest, handler_subscribed, if_pos rfl]
  next := hnext
  route id hne := (hroute id hne).trans ((Table.get?_insert ..).trans (if_neg hne))
  sends id hne := by
    rw [sendsFor, hsends]
    refine (sendsFor_subscribed h c id).trans ?_
    rw [if_neg fun heq => hne (Option.some.inj heq).symm, List.append_nil]
  routed := hrouted
  sent := by
    refine ⟨c.isOpen, ?_⟩
    rw [sendsFor, hsends]
    exact (sendsFor_subscribed h c _).trans (by rw [if_pos rfl])

/-- Begins an operation with callbacks, if the handler fails at once. -/
theorem Obeys.subscribe (hr : Obeys S react) (hc : c.Coherent P) (hidle : (c.handler h).state = .idle) :
    c.Turn S P E (fun _ => False) (c.subscribe react h).2 := by
  have hget : (c.subscribed h).routes.get? (toString c.nextOperation) = some h :=
    (Table.get?_insert ..).trans (if_pos rfl)
  have hself := handler_subscribed h h c
  rw [if_pos rfl] at hself
  have hprefix : c.sends <+: (c.subscribed h).sends := List.prefix_append _ _
  have hnot : ¬c.Over h := by
    rw [Over, hidle]
    exact Bool.false_ne_true
  rw [subscribe_eq]
  split
  · have hs : c.Subscribes h (c.subscribed h) := by
      refine subscribes_of hidle (fun _ _ => rfl) rfl rfl rfl (fun _ _ => rfl) rfl (.inl ⟨?_, hget⟩)
      rw [hself]
    have hst : c.SameStore (c.subscribed h) := by
      refine ⟨rfl, rfl, fun _ _ => .inl, ?_, ?_, ?_, ?_⟩ <;> intro k <;> rw [handler_subscribed] <;>
        split <;> rfl
    refine hs.turn hst hc hprefix S (.of_eq rfl) rfl fun hover => ?_
    rw [Over, hself] at hover
    cases hover
  · have hnot' : ¬((c.subscribed h).unroute (toString c.nextOperation)).Over h := by
      change ¬((c.subscribed h).handler h).state.isTerminal = true
      rw [hself]
      exact Bool.false_ne_true
    have hrun : ((c.subscribed h).unroute (toString c.nextOperation)).finish react h (.failed .closed) =
        (c.refused h).tell react ((c.refused h).handler h).onError (.error .closed) := if_neg hnot'
    have hother : ∀ k, k ≠ h → (c.refused h).handler k = (c.subscribed h).handler k := fun k hk =>
      handler_modifyHandler_of_ne hk _ _
    have hended : (c.refused h).handler h = (Ending.failed .closed).close ((c.subscribed h).handler h) :=
      handler_modifyHandler_self _ _ _
    have hroutes : ∀ id, (c.refused h).routes.get? id =
        if id = toString c.nextOperation then none else (c.subscribed h).routes.get? id := get?_unroute _ _
    have hover : (c.refused h).Over h := by
      rw [Over, hended]
      rfl
    have hs : c.Subscribes h (c.refused h) :=
      subscribes_of hidle hother (by rw [hended]; rfl) (by rw [hended]; rfl) rfl
        (fun id hne => (hroutes id).trans (if_neg hne)) rfl (.inr ⟨hover, (hroutes _).trans (if_pos rfl)⟩)
    have hst : c.SameStore (c.refused h) := by
      refine ⟨rfl, rfl, fun _ _ => .inl, ?_, ?_, ?_, ?_⟩ <;> intro k <;> by_cases hk : k = h
      all_goals first
        | rw [hk, hended, hself]; rfl
        | rw [hother k hk, handler_subscribed, if_neg hk]
    have hstep : c.Turn S P E (· = h) (c.refused h) := hs.turn hst hc hprefix S (.of_eq rfl) rfl fun _ => rfl
    rw [hrun]
    refine hr.announce hc.wired hstep rfl hnot hover (.error .closed)
      (hstep.coherent.named.callbacks_end h (.failed .closed)) ?_
    rw [hended]
    exact (Ending.failed .closed).announced _

/-- Executing begins an operation for an idle handler, and does nothing for any other one. -/
theorem execute_eq (hw : c.Wired P) (react : Reaction (Callback κ) (Journal κ μ)) (h : HandlerId) :
    (c.execute react h).2 = if (c.handler h).state = .idle then (c.subscribe react h).2 else c := by
  by_cases hover : c.Over h
  · rw [if_neg hover.not_idle, execute]
    exact congrArg Prod.snd (if_pos hover)
  · have hrun : c.execute react h = _ := if_neg hover
    rw [hrun]
    cases hstate : (c.handler h).state with
    | idle => rw [hw.idle hstate, if_pos rfl, Option.filter_none]
    | subscribed =>
        obtain ⟨id, hid, hroute⟩ := hw.route hstate
        have hin : c.routes.contains id = true := by rw [Table.contains, hroute]; rfl
        rw [hid, Option.filter_some, if_pos hin, if_neg HandlerState.noConfusion]
    | completed | errored | disposed => exact absurd (by rw [Over, hstate]; rfl) hover

theorem Obeys.execute (hr : Obeys S react) (hc : c.Coherent P) (h : HandlerId) :
    c.Turn S P E (fun _ => False) (c.execute react h).2 := by
  rw [execute_eq hc.wired]
  split
  · exact hr.subscribe hc (by assumption)
  · exact .refl hc S E _

/-! ### Messages from the server -/

/-- A message that ends no operation that is routed. -/
theorem turn_take (hc : c.Coherent P) {message : ServerMessage}
    (hends : ∀ id, message.ends? = some id → c.routes.get? id = none) : c.Turn S P E F (c.take message) := by
  have ha : c.Aside (c.take message) := .of_host _ c.isOpen (.take rfl rfl hends)
  exact ha.turn_of_told hc S E F rfl

/-- The server's word that an operation has ended, which is dropped unless that is routed. -/
theorem Obeys.served (hr : Obeys S react) (hc : c.Coherent P) (hS : S id) {message : ServerMessage}
    (hends : message.ends? = some id) (ending : Ending) :
    c.Turn S P E (fun _ => False) (match (c.take message).routes.get? id with
      | some h => ((c.take message).unroute id).finish react h ending
      | none => c.take message) := by
  have hroutes : (c.take message).routes.get? id = c.routes.get? id := rfl
  rw [hroutes]
  cases hroute : c.routes.get? id with
  | some h =>
      have hready := Readies.served hroute hS hends
      refine hready.finish hr hc (fun other hother => ?_) ending
      exact absurd hother (hready.unrouted hc.wired hroute ((get?_unroute ..).trans (if_pos rfl)) other)
  | none =>
      refine turn_take hc fun other hother => ?_
      rw [hends, Option.some.injEq] at hother
      rw [← hother, hroute]

theorem Coherent.restrict (hc : c.Coherent fun k => P k ∨ k = h)
    (hP : ∀ id, c.routes.get? id = some h → c.Over h → P h) : c.Coherent P := by
  have hrouted : ∀ {id k}, c.routes.get? id = some k → (c.handler k).state = .subscribed ∨
      (c.Over k ∧ P k) := by
    intro id k hroute
    rcases hc.wired.routed hroute with hstate | ⟨hover, hin | rfl⟩
    · exact .inl hstate
    · exact .inr ⟨hover, hin⟩
    · exact .inr ⟨hover, hP id hroute hover⟩
  exact { hc with wired := { hc.wired with routed := hrouted } }

/-- Data for a routed operation, which is given up if its handler has ended by that. -/
theorem Obeys.next (hr : Obeys S react) (hc : c.Coherent P) (hroute : c.routes.get? id = some h)
    (payload : Json) :
    c.Turn S P E (fun _ => False) (if ((c.receive react h payload).handler h).state.isTerminal
      then (c.receive react h payload).giveUp id else c.receive react h payload) := by
  -- while the data is received, the handler may have ended and still be routed
  have hc' : c.Coherent fun k => P k ∨ k = h := hc.mono fun _ => .inl
  have hreceive : c.Turn S (fun k => P k ∨ k = h) E (fun _ => False) (c.receive react h payload) :=
    hr.receive hc' (.inr rfl) payload
  generalize c.receive react h payload = c₁ at hreceive
  have hid : (c₁.handler h).id = some id :=
    (hreceive.later.kept h (hc.wired.not_idle (hc.wired.owner hroute))).id.trans (hc.wired.owner hroute)
  have hnone : c₁.routes.get? id = none → ∀ other, c₁.routes.get? other ≠ some h := by
    intro hgone other hother
    rw [hreceive.coherent.wired.owner hother, Option.some.injEq] at hid
    rw [hid, hgone] at hother
    cases hother
  refine hreceive.trans hc.wired ?_
  split
  · rename_i hover
    rcases hreceive.later.wire id ⟨h, hc.wired.owner hroute⟩ with ⟨hsame, -⟩ | ⟨-, hgone, -⟩
    · have hready := Readies.giveUp (hsame.trans hroute) S
      refine hready.turn_over hover hreceive.coherent (fun other hother => ?_) fun k hk hin =>
        hin.resolve_right hk
      exact absurd hother (hready.unrouted hreceive.coherent.wired (hsame.trans hroute)
        (by rw [get?_giveUp, if_pos rfl]) other)
    · rw [giveUp_of_unrouted hgone]
      exact .refl (hreceive.coherent.restrict fun other hother => absurd hother (hnone hgone other)) S E _
  · rename_i hnot
    exact .refl (hreceive.coherent.restrict fun _ _ hover => absurd hover hnot) S E _

/-- What the server sends. -/
theorem Obeys.dispatch (hr : Obeys S react) (hc : c.Coherent P) {message : ServerMessage}
    (hS : ∀ id, message.ends? = some id → S id) :
    c.Turn S P E (fun _ => False) ((c.take message).dispatch react message) := by
  have hpass : ∀ message : ServerMessage, message.ends? = none →
      c.Turn S P E (fun _ => False) (c.take message) := fun message hnone =>
    turn_take hc fun id hends => by rw [hnone] at hends; cases hends
  cases message with
  | next id payload =>
      have htake := hpass (.next id payload) rfl
      refine htake.trans hc.wired ?_
      rw [Client.dispatch]
      cases hroute : (c.take (.next id payload)).routes.get? id with
      | some h => exact hr.next htake.coherent hroute payload
      | none => exact .refl htake.coherent S E _
  | error id payload => exact hr.served hc (hS id rfl) rfl (.failed (.server payload))
  | complete id => exact hr.served hc (hS id rfl) rfl .completed
  | ping payload =>
      have htake := hpass (.ping payload) rfl
      have ha : (c.take (.ping payload)).Aside ((c.take (.ping payload)).send (.pong payload)).2 :=
        ⟨⟨rfl, rfl, fun _ _ => .inl, fun _ => rfl, fun _ => rfl, fun _ => rfl, fun _ => rfl⟩, rfl, rfl, rfl,
          ⟨_, rfl, fun s hs => by rw [List.mem_singleton.1 hs]; rfl⟩, .of_eq rfl⟩
      exact htake.trans hc.wired (ha.turn_of_told htake.coherent S E _ rfl)
  | connectionAck payload => exact hpass _ rfl
  | pong payload => exact hpass _ rfl

/-- When the server ends an operation, nothing is handed over for it. -/
theorem Obeys.unrouted_dispatch (hr : Obeys S react) (hc : c.Coherent P) (hroute : c.routes.get? id = some h)
    (hS : S id) {message : ServerMessage} (hends : message.ends? = some id) :
    ((c.take message).dispatch react message).routes.get? id = none ∧
      ((c.take message).dispatch react message).sendsFor id = c.sendsFor id := by
  have hready := Readies.served hroute hS hends
  have hgone : ((c.take message).unroute id).routes.get? id = none := (get?_unroute ..).trans (if_pos rfl)
  have hfinish := hready.unrouted_finish hr hc (hc.wired.owner hroute)
    (hready.unrouted hc.wired hroute hgone) hgone
  have hroute' : (c.take message).routes.get? id = some h := hroute
  have hrun : ∃ ending, (c.take message).dispatch react message =
      ((c.take message).unroute id).finish react h ending := by
    cases message with
    | error other payload =>
        obtain rfl := Option.some.inj hends
        exact ⟨.failed (.server payload), by rw [Client.dispatch, hroute']; exact fail_eq_finish ..⟩
    | complete other =>
        obtain rfl := Option.some.inj hends
        exact ⟨.completed, by rw [Client.dispatch, hroute']; exact complete_eq_finish ..⟩
    | _ => cases hends
  obtain ⟨ending, hrun⟩ := hrun
  rw [hrun]
  exact hfinish ending

/-! ### Disposing -/

/-- Stopping a handler, also one that has ended. -/
theorem turn_dispose (hc : c.Coherent P) (S : String → Prop) (h : HandlerId) :
    c.Turn S P E (fun _ => False) (c.dispose h) := by
  have hclosing : @Closing κ fun s => { s with state := .disposed } :=
    ⟨fun _ => rfl, fun _ => rfl, fun _ => rfl, fun _ => rfl, fun _ => rfl, fun _ => rfl, fun _ => rfl⟩
  have hend : ∀ {c₀}, c.Readies S h c₀ → (∀ id, c₀.routes.get? id ≠ some h) →
      c.Turn S P E (fun _ => False) (c₀.modifyHandler h fun s => { s with state := .disposed }) := by
    intro c₀ hready hnone
    exact hready.turn hclosing hc (fun id hroute => absurd hroute (hnone id)) (fun _ _ => id)
      (fun _ => ⟨rfl, rfl⟩) (.inl rfl)
  unfold dispose
  cases hid : (c.handler h).id with
  | none =>
      refine hend (.refl S h c) fun id hroute => ?_
      rw [hc.wired.owner hroute] at hid
      cases hid
  | some id =>
      cases hroute : c.routes.get? id with
      | some k =>
          obtain rfl := hc.wired.once (hc.wired.owner hroute) hid
          have hready := Readies.giveUp hroute S
          exact hend hready (hready.unrouted hc.wired hroute (by rw [get?_giveUp, if_pos rfl]))
      | none =>
          have hsame := giveUp_of_unrouted hroute
          refine @hend (c.giveUp id) (hsame.symm ▸ .refl S h c) fun other hother => ?_
          rw [hsame] at hother
          rw [hc.wired.owner hother, Option.some.injEq] at hid
          rw [hid, hroute] at hother
          cases hother

/-! ### Handlers and observers -/

/-- Another record of a handler, with the same state and operation. -/
theorem turn_handler (hc : c.Coherent P) (S : String → Prop) {handlers : Arena (Handler (Callback κ))}
    {s : Handler (Callback κ)}
    (hset : ∀ k : HandlerId, handlers.get k.number = if k = h then s else c.handler k)
    (hstate : s.state = (c.handler h).state) (hid : s.id = (c.handler h).id)
    (hroot : ∀ r, s.root = some r → (c.handler h).root = some r)
    (hdata : ∀ b ∈ s.onData, ∃ a, b = .handler h .data a)
    (herror : ∀ b ∈ s.onError, ∃ a, b = .handler h .error a)
    (hcompleted : ∀ b ∈ s.onCompleted, ∃ a, b = .handler h .completed a)
    (hkept : s.state ≠ .idle → (c.handler h).Persists s ∧ s.error = (c.handler h).error ∧
      s.root = (c.handler h).root) : c.Turn S P E F { c with handlers := handlers } := by
  have hset' : ∀ k, ({ c with handlers := handlers } : Session κ μ).handler k = if k =
    h then s else c.handler k := hset
  have hself : ({ c with handlers := handlers } : Session κ μ).handler h = s := (hset' h).trans (if_pos rfl)
  have hother : ∀ k, k ≠ h → ({ c with handlers := handlers } : Session κ μ).handler k = c.handler k :=
    fun k hk => (hset' k).trans (if_neg hk)
  have hroots : ∀ {k r}, (({ c with handlers := handlers } : Session κ μ).handler k).root = some r →
      (c.handler k).root = some r := by
    intro k r hr
    by_cases hk : k = h
    · subst hk
      rw [hself] at hr
      exact hroot r hr
    · rwa [hother k hk] at hr
  have hcore : ∀ k, (({ c with handlers := handlers } : Session κ μ).handler k).state = (c.handler k).state ∧
      (({ c with handlers := handlers } : Session κ μ).handler k).id = (c.handler k).id := by
    intro k
    by_cases hk : k = h
    · subst hk
      rw [hself]
      exact ⟨hstate, hid⟩
    · rw [hother k hk]
      exact ⟨rfl, rfl⟩
  have hkeeps : ∀ {k}, (c.handler k).state ≠ .idle →
      (c.handler k).Persists (({ c with handlers := handlers } : Session κ μ).handler k) ∧
        (({ c with handlers := handlers } : Session κ μ).handler k).error = (c.handler k).error ∧
        (({ c with handlers := handlers } : Session κ μ).handler k).root = (c.handler k).root := by
    intro k hstarted
    by_cases hk : k = h
    · subst hk
      rw [hself]
      exact hkept (hstate ▸ hstarted)
    · rw [hother k hk]
      exact ⟨⟨hstarted, rfl, rfl, List.prefix_rfl, List.prefix_rfl⟩, rfl, rfl⟩
  have hwiring : c.SameWiring { c with handlers := handlers } :=
    ⟨hcore, fun hid => (hkeeps (hc.wired.not_idle hid)).1.request, rfl, rfl, fun _ => rfl⟩
  have hnamed : ({ c with handlers := handlers } : Session κ μ).Named := by
    refine ⟨hc.named.observer, fun k => ?_, fun k => ?_, fun k => ?_⟩ <;> by_cases hk : k = h
    · exact hk ▸ hself.symm ▸ hdata
    · exact hother k hk ▸ hc.named.data k
    · exact hk ▸ hself.symm ▸ herror
    · exact hother k hk ▸ hc.named.error k
    · exact hk ▸ hself.symm ▸ hcompleted
    · exact hother k hk ▸ hc.named.completed k
  have hr := hc.rooted
  refine ⟨⟨hwiring.wired hc.wired, ⟨hr.distinct, hr.sound, fun hk => hr.made (hroots hk),
    fun hk => hr.loose (hroots hk), fun hk hk' => hr.once (hroots hk) (hroots hk')⟩, hnamed, hc.quiet⟩,
    ⟨rfl, fun _ hstarted => (hkeeps hstarted).1, fun k hover => ⟨.inl (hcore k).1, (hkeeps hover.not_idle).2⟩,
      fun _ _ _ _ => .refl _ _, fun id _ => hwiring.wireStep S id, List.prefix_rfl⟩, fun _ _ _ => rfl,
    fun k _ => .of_heardEnd rfl fun hnot => .inl (by rwa [Over, (hcore k).1])⟩

/-- A new handler. -/
theorem turn_create (hc : c.Coherent P) (S : String → Prop) (request : Request)
    (onData onError onCompleted : List κ) :
    c.Turn S P E F (c.newHandler (.named ⟨c.handlers.size⟩ request onData onError onCompleted)).2 := by
  have hblank := c.handler_next
  have hnamed : ∀ role (bs : List κ), ∀ b ∈ bs.map (Callback.handler ⟨c.handlers.size⟩ role),
      ∃ a, b = .handler ⟨c.handlers.size⟩ role a := by
    intro role bs b hb
    obtain ⟨a, -, rfl⟩ := List.mem_map.1 hb
    exact ⟨a, rfl⟩
  exact turn_handler hc S (handler_newHandler c _) (by rw [hblank]; rfl) (by rw [hblank]; rfl) nofun
    (hnamed .data onData) (hnamed .error onError) (hnamed .completed onCompleted) fun hstarted =>
      absurd rfl hstarted

/-- One more callback of a handler. -/
theorem turn_listen (hc : c.Coherent P) (S : String → Prop) (h : HandlerId) (role : Role) (b : κ) :
    c.Turn S P E F (c.modifyHandler h (.listen role (.handler h role b))) := by
  have hadd : ∀ {role' : Role} {bs : List (Callback κ)}, (∀ b ∈ bs, ∃ a, b = .handler h role' a) →
      ∀ b' ∈ bs ++ [Callback.handler h role' b], ∃ a, b' = .handler h role' a := by
    intro role' bs hbs b' hb'
    rcases List.mem_append.1 hb' with hb' | hb'
    · exact hbs b' hb'
    · exact ⟨b, List.mem_singleton.1 hb'⟩
  have hn := hc.named
  have hset : ∀ k, (c.modifyHandler h (.listen role (.handler h role b))).handler k =
      if k = h then (c.handler h).listen role (.handler h role b) else c.handler k := by
    intro k
    rw [handler_modifyHandler]
    split
    · rename_i hk
      rw [hk]
    · rfl
  cases role with
  | data =>
      exact turn_handler hc S hset rfl rfl (fun _ => id) (hadd (hn.data h)) (hn.error h) (hn.completed h)
        fun hstarted => ⟨⟨hstarted, rfl, rfl, List.prefix_rfl, List.prefix_rfl⟩, rfl, rfl⟩
  | error =>
      exact turn_handler hc S hset rfl rfl (fun _ => id) (hn.data h) (hadd (hn.error h)) (hn.completed h)
        fun hstarted => ⟨⟨hstarted, rfl, rfl, List.prefix_append _ _, List.prefix_rfl⟩, rfl, rfl⟩
  | completed =>
      exact turn_handler hc S hset rfl rfl (fun _ => id) (hn.data h) (hn.error h) (hadd (hn.completed h))
        fun hstarted => ⟨⟨hstarted, rfl, rfl, List.prefix_rfl, List.prefix_append _ _⟩, rfl, rfl⟩

/-- Observers that come and go. -/
theorem turn_watch (hc : c.Coherent P) (S : String → Prop) {watch : Watch (Callback κ)}
    (hwatch : ∀ target, ∀ k ∈ (watch.get target).callbacks,
      k ∈ (c.watch.get target).callbacks ∨ ∃ b, k = .observer b) :
    c.Turn S P E F { c with watch := watch } := by
  have ha : c.Aside { c with watch := watch } :=
    ⟨⟨rfl, rfl, hwatch, fun _ => rfl, fun _ => rfl, fun _ => rfl, fun _ => rfl⟩, rfl, rfl, rfl,
      ⟨[], (List.append_nil _).symm, nofun⟩, .of_eq rfl⟩
  exact ha.turn_of_told hc S E F rfl

theorem turn_observe (hc : c.Coherent P) (S : String → Prop) (target : Target)
    (field : Option String) (b : κ) :
    c.Turn S P E F (c.observe target field (.observer b)).2 := by
  refine turn_watch hc S fun other k hk => ?_
  rw [Watch.get_set] at hk
  split at hk
  · rename_i heq
    subst heq
    change k ∈ List.map _ (_ ++ [_]) at hk
    rw [List.map_append] at hk
    exact (List.mem_append.1 hk).imp_right fun hk => ⟨b, List.mem_singleton.1 hk⟩
  · exact .inl hk

theorem turn_cancel (hc : c.Coherent P) (S : String → Prop) (s : Subscription) :
    c.Turn S P E F (c.cancel s).2 := by
  refine turn_watch hc S fun other k hk => .inl ?_
  rw [Watch.get_set] at hk
  split at hk
  · rename_i heq
    subst heq
    obtain ⟨o, ho, heq⟩ := List.mem_map.1 hk
    exact List.mem_map.2 ⟨o, (List.mem_filter.1 ho).1, heq⟩
  · exact hk

/-! ### Programs -/

/-- Every call is a turn if its callbacks keep to turns. -/
theorem Obeys.perform (hr : Obeys S react) (hc : c.Coherent P) {call : Call κ}
    (hcall : call.Takes fun m => ∀ id, m.ends? = some id → S id) :
    c.Turn S P (fun _ => False) (fun _ => False) (call.perform react c) := by
  cases call with
  | create request onData onError onCompleted => exact turn_create hc S request onData onError onCompleted
  | listen h role b => exact turn_listen hc S h role b
  | observe target field b => exact turn_observe hc S target field b
  | cancel s => exact turn_cancel hc S s
  | connect isOpen => exact (Aside.of_host c.host isOpen (.of_eq rfl)).turn_of_told hc S _ _ rfl
  | execute h => exact hr.execute hc h
  | dispatch message => exact hr.dispatch hc hcall
  | dispose h => exact turn_dispose hc S h

end Client

/-- Callbacks that are programs keep to turns. -/
theorem Program.obeys_of_turn {κ μ : Type} {S : String → Prop} {react : Callback κ → Event → Program κ μ}
    (hturn : ∀ k e (P : HandlerId → Prop) (c : Session κ μ), c.Coherent P →
      c.Turn S P (fun _ => False) (fun _ => False) ((react k e).run c)) :
    Client.Obeys S fun k e c => (react k e).run (Client.jot k e c) := fun P k e _ hc =>
  hturn k e P _ (Client.turn_jot (E := fun _ => True) (F := fun _ => True) hc S e
    fun _ => ⟨fun _ => trivial, fun _ => trivial⟩).coherent

/-- **A run is a turn.** Whatever a program and its callbacks do to a session, at the end it is coherent
and later than before. -/
theorem Program.turn {κ μ : Type} {S : String → Prop} {P : HandlerId → Prop} (p : Program κ μ)
    (hp : p.Takes fun m => ∀ id, m.ends? = some id → S id) {c : Session κ μ} (hc : c.Coherent P) :
    c.Turn S P (fun _ => False) (fun _ => False) (p.run c) := by
  induction p generalizing P c with
  | done => exact .refl hc S _ _
  | remember memory next ih =>
      have hstep : c.Turn S P (fun _ => False) (fun _ => False)
          { c with host := { c.host with memory := memory c } } :=
        (Client.Aside.of_host ⟨c.host.told, c.host.taken, memory c⟩ c.isOpen
          (.of_eq rfl)).turn_of_told hc S _ _ rfl
      exact hstep.trans hc.wired (ih hp hstep.coherent)
  | look next ih => exact ih c (hp c) hc
  | call made react next ihreact ih =>
      obtain ⟨hmade, hreact, hnext⟩ := hp
      have hobeys := Program.obeys_of_turn fun k e Q _ hc' => ihreact k e (P := Q) (hreact k e) hc'
      have hstep := hobeys.perform hc hmade
      exact hstep.trans hc.wired (ih hnext hstep.coherent)

end GraphClient.Live
