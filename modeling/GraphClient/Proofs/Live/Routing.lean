import GraphClient.Proofs.Live.Heap
import GraphClient.Proofs.Live.Programs

/-! Routes, handlers and the messages that are handed over for an operation. A route leads to the handler
with its operation id, ids are numbers that are given out once, and for every id that was given out there
is one subscription and then at most one word that the operation is given up. While a message is taken, a
handler that has ended may still be routed; these are the handlers in `P`. -/

namespace GraphClient.Live

theorem HandlerId.number_inj {a b : HandlerId} : a.number = b.number ↔ a = b := by
  cases a
  cases b
  simp

/-- Different numbers are written differently. -/
theorem toString_number_inj {m n : Nat} (heq : toString m = toString n) : m = n := by
  have hdigits : Nat.toDigits 10 m = Nat.toDigits 10 n := String.ofList_injective heq
  rw [← @Nat.ofDigitChars_toDigits 10 m (by decide) (by decide), hdigits,
    Nat.ofDigitChars_toDigits (by decide) (by decide)]

namespace Client

section Handlers

variable {κ σ : Type}

theorem handler_modifyHandler (c : Client κ σ) (h k : HandlerId) (change : Handler κ → Handler κ) :
    (c.modifyHandler h change).handler k = if k = h then change (c.handler k) else c.handler k := by
  simp only [← HandlerId.number_inj]
  exact Arena.get_modify ..

theorem handler_modifyHandler_of_ne {h k : HandlerId} (hne : k ≠ h) (c : Client κ σ)
    (change : Handler κ → Handler κ) : (c.modifyHandler h change).handler k = c.handler k := by
  rw [handler_modifyHandler, if_neg hne]

theorem handler_modifyHandler_self (c : Client κ σ) (h : HandlerId) (change : Handler κ → Handler κ) :
    (c.modifyHandler h change).handler h = change (c.handler h) := by
  rw [handler_modifyHandler, if_pos rfl]

theorem handler_newHandler (c : Client κ σ) (s : Handler κ) (k : HandlerId) :
    (c.newHandler s).2.handler k = if k = ⟨c.handlers.size⟩ then s else c.handler k := by
  simp only [← HandlerId.number_inj]
  exact Arena.get_push ..

/-- There is no handler yet under the next number. -/
theorem handler_next (c : Client κ σ) : c.handler ⟨c.handlers.size⟩ = default :=
  Arena.get_eq_default (Nat.le_refl _)

theorem get?_unroute (c : Client κ σ) (id other : String) :
    (c.unroute id).routes.get? other = if other = id then none else c.routes.get? other :=
  Table.get?_erase ..

end Handlers

variable {κ μ : Type} {c c' c₁ c₂ : Session κ μ} {P P' : HandlerId → Prop} {S : String → Prop}
  {h k : HandlerId} {id : String}

/-- That an operation id was given out. -/
def Issued (c : Session κ μ) (id : String) : Prop := ∃ h, (c.handler h).id = some id

/-- That a handler has ended. -/
def Over (c : Session κ μ) (h : HandlerId) : Prop := (c.handler h).state.isTerminal = true

theorem sendsFor_send (message : ClientMessage) (c : Session κ μ) (id : String) :
    (c.send message).2.sendsFor id =
      c.sendsFor id ++ if message.id? = some id then [⟨message, c.isOpen⟩] else [] := by
  simp only [sendsFor, send, List.filter_append, List.filter_cons, List.filter_nil, decide_eq_true_eq]

/-- What may become of an operation: nothing; or it is no longer routed, after the server was told or,
for an id in `S`, because the server said so. -/
def WireStep (S : String → Prop) (id : String) (c c' : Session κ μ) : Prop :=
  (c'.routes.get? id = c.routes.get? id ∧ c'.sendsFor id = c.sendsFor id) ∨
    (c.routes.get? id ≠ none ∧ c'.routes.get? id = none ∧
      ((∃ d, c'.sendsFor id = c.sendsFor id ++ [⟨.complete id, d⟩]) ∨
        (S id ∧ c'.sendsFor id = c.sendsFor id)))

namespace WireStep

theorem refl (S : String → Prop) (id : String) (c : Session κ μ) : c.WireStep S id c := .inl ⟨rfl, rfl⟩

theorem trans (hfirst : c.WireStep S id c₁) (hsecond : c₁.WireStep S id c₂) : c.WireStep S id c₂ := by
  rcases hfirst with ⟨hroute, hsends⟩ | ⟨hroute, hgone, hsends⟩
  · rw [WireStep, hroute, hsends] at hsecond
    exact hsecond
  · rcases hsecond with ⟨hroute', hsends'⟩ | ⟨hroute', -⟩
    · rw [← hsends'] at hsends
      exact .inr ⟨hroute, hroute'.trans hgone, hsends⟩
    · exact absurd hgone hroute'

/-- Nothing more is handed over for an operation that is not routed. -/
theorem unrouted (hstep : c.WireStep S id c') (hroute : c.routes.get? id = none) :
    c'.routes.get? id = none ∧ c'.sendsFor id = c.sendsFor id := by
  rcases hstep with ⟨hsame, hsends⟩ | ⟨hne, -⟩
  · exact ⟨hsame.trans hroute, hsends⟩
  · exact absurd hroute hne

end WireStep

/-- That routes, handlers and messages fit together. -/
structure Wired (P : HandlerId → Prop) (c : Session κ μ) : Prop where
  owner : ∀ {id h}, c.routes.get? id = some h → (c.handler h).id = some id
  routed : ∀ {id h}, c.routes.get? id = some h → (c.handler h).state = .subscribed ∨ (c.Over h ∧ P h)
  subscribed : ∀ {h}, (c.handler h).state = .subscribed → ∃ id, c.routes.get? id = some h
  idle : ∀ {h}, (c.handler h).state = .idle → (c.handler h).id = none
  number : ∀ {h id}, (c.handler h).id = some id → ∃ n < c.nextOperation, id = toString n
  once : ∀ {h k id}, (c.handler h).id = some id → (c.handler k).id = some id → h = k
  unsent : ∀ {id}, ¬c.Issued id → c.sendsFor id = []
  sent : ∀ {h id}, (c.handler h).id = some id →
    ∃ d, c.sendsFor id = [⟨.subscribe id (c.handler h).request.payload, d⟩] ∨
      (c.routes.get? id = none ∧
        ∃ d', c.sendsFor id = [⟨.subscribe id (c.handler h).request.payload, d⟩, ⟨.complete id, d'⟩])

namespace Wired

theorem mono (hw : c.Wired P) (hP : ∀ h, P h → P' h) : c.Wired P' :=
  { hw with routed := fun hroute => (hw.routed hroute).imp_right fun hover => ⟨hover.1, hP _ hover.2⟩ }

theorem issued (hw : c.Wired P) (hroute : c.routes.get? id = some h) : c.Issued id := ⟨h, hw.owner hroute⟩

theorem unrouted_of_not_issued (hw : c.Wired P) (hnew : ¬c.Issued id) : c.routes.get? id = none :=
  Option.eq_none_iff_forall_ne_some.2 fun _ hroute => hnew (hw.issued hroute)

/-- A handler with an id is not idle. -/
theorem not_idle (hw : c.Wired P) (hid : (c.handler h).id = some id) : (c.handler h).state ≠ .idle := by
  intro hidle
  rw [hw.idle hidle] at hid
  cases hid

/-- The route of a subscribed handler. -/
theorem route (hw : c.Wired P) (hstate : (c.handler h).state = .subscribed) :
    ∃ id, (c.handler h).id = some id ∧ c.routes.get? id = some h :=
  (hw.subscribed hstate).imp fun _ hroute => ⟨hw.owner hroute, hroute⟩

theorem begin (plans : Plans) (memory : μ) : (Client.begin plans memory : Session κ μ).Wired P := by
  have hblank : ∀ h, (Client.begin plans memory : Session κ μ).handler h = default := fun _ =>
    Arena.get_eq_default (Nat.zero_le _)
  have hid : ∀ {h id}, ((Client.begin plans memory : Session κ μ).handler h).id ≠ some id := by
    intro h id heq
    rw [hblank] at heq
    cases heq
  refine ⟨nofun, nofun, fun {h} heq => ?_, fun {h} _ => ?_, fun heq => absurd heq hid,
    fun heq => absurd heq hid, fun _ => rfl, fun heq => absurd heq hid⟩
  · rw [hblank] at heq
    cases heq
  · rw [hblank]
    rfl

/-- The id that is given out next. -/
theorem not_issued_next (hw : c.Wired P) : ¬c.Issued (toString c.nextOperation) := by
  rintro ⟨h, hid⟩
  obtain ⟨n, hlt, heq⟩ := hw.number hid
  exact Nat.lt_irrefl n (toString_number_inj heq ▸ hlt)

end Wired

/-- That the wiring of two sessions is the same. -/
structure SameWiring (c c' : Session κ μ) : Prop where
  handler : ∀ h, (c'.handler h).state = (c.handler h).state ∧ (c'.handler h).id = (c.handler h).id
  request : ∀ {h id}, (c.handler h).id = some id → (c'.handler h).request = (c.handler h).request
  routes : c'.routes = c.routes
  next : c'.nextOperation = c.nextOperation
  sends : ∀ id, c'.sendsFor id = c.sendsFor id

theorem SameWiring.wired (hs : c.SameWiring c') (hw : c.Wired P) : c'.Wired P where
  owner hroute := by
    rw [hs.routes] at hroute
    rw [(hs.handler _).2]
    exact hw.owner hroute
  routed hroute := by
    rw [hs.routes] at hroute
    rw [Over, (hs.handler _).1]
    exact hw.routed hroute
  subscribed hstate := by
    rw [(hs.handler _).1] at hstate
    rw [hs.routes]
    exact hw.subscribed hstate
  idle hstate := by
    rw [(hs.handler _).1] at hstate
    rw [(hs.handler _).2]
    exact hw.idle hstate
  number hid := by
    rw [(hs.handler _).2] at hid
    rw [hs.next]
    exact hw.number hid
  once hid hid' := by
    rw [(hs.handler _).2] at hid hid'
    exact hw.once hid hid'
  unsent hnew := by
    rw [hs.sends]
    refine hw.unsent fun hissued => hnew ?_
    obtain ⟨h, hid⟩ := hissued
    exact ⟨h, (hs.handler h).2.trans hid⟩
  sent hid := by
    rw [(hs.handler _).2] at hid
    rw [hs.routes, hs.sends, hs.request hid]
    exact hw.sent hid

theorem SameWiring.wireStep (hs : c.SameWiring c') (S : String → Prop) (id : String) : c.WireStep S id c' :=
  .inl ⟨by rw [hs.routes], hs.sends id⟩

/-- That a handler has come to its end, with nothing done to the others. Its operation may have been
unrouted. -/
structure Concludes (S : String → Prop) (h : HandlerId) (c c' : Session κ μ) : Prop where
  others : ∀ k, k ≠ h → c'.handler k = c.handler k
  id : (c'.handler h).id = (c.handler h).id
  request : (c'.handler h).request = (c.handler h).request
  ended : c'.Over h
  next : c'.nextOperation = c.nextOperation
  wire : ∀ id, c.WireStep S id c'
  route : ∀ {id}, c'.routes.get? id ≠ c.routes.get? id → c.routes.get? id = some h

namespace Concludes

theorem id_eq (hs : c.Concludes S h c') (k : HandlerId) : (c'.handler k).id = (c.handler k).id := by
  by_cases hk : k = h
  · rw [hk, hs.id]
  · rw [hs.others k hk]

theorem request_eq (hs : c.Concludes S h c') (k : HandlerId) :
    (c'.handler k).request = (c.handler k).request := by
  by_cases hk : k = h
  · rw [hk, hs.request]
  · rw [hs.others k hk]

theorem state_ne (hs : c.Concludes S h c') {s : HandlerState} (hs' : s.isTerminal = false) :
    (c'.handler h).state ≠ s := by
  intro heq
  have hover := hs.ended
  rw [Over, heq, hs'] at hover
  cases hover

theorem issued_iff (hs : c.Concludes S h c') : c'.Issued id ↔ c.Issued id :=
  exists_congr fun k => by rw [hs.id_eq k]

/-- A route that is there was there before. -/
theorem route_before (hs : c.Concludes S h c') (hroute : c'.routes.get? id = some k) :
    c.routes.get? id = some k := by
  rcases hs.wire id with ⟨hsame, -⟩ | ⟨-, hgone, -⟩
  · rw [← hsame, hroute]
  · rw [hroute] at hgone
    cases hgone

theorem wired (hs : c.Concludes S h c') (hw : c.Wired P) (hP : ∀ id, c'.routes.get? id = some h → P' h)
    (hothers : ∀ k, k ≠ h → P k → P' k) : c'.Wired P' where
  owner hroute := by
    rw [hs.id_eq]
    exact hw.owner (hs.route_before hroute)
  routed {id k} hroute := by
    by_cases hk : k = h
    · subst hk
      exact .inr ⟨hs.ended, hP id hroute⟩
    · rw [Over, hs.others k hk]
      exact (hw.routed (hs.route_before hroute)).imp_right fun hover => ⟨hover.1, hothers k hk hover.2⟩
  subscribed {k} hstate := by
    by_cases hk : k = h
    · subst hk
      exact absurd hstate (hs.state_ne rfl)
    · rw [hs.others k hk] at hstate
      obtain ⟨id, hroute⟩ := hw.subscribed hstate
      refine ⟨id, ?_⟩
      by_cases hsame : c'.routes.get? id = c.routes.get? id
      · rw [hsame, hroute]
      · rw [hs.route hsame, Option.some.injEq] at hroute
        exact absurd hroute.symm hk
  idle {k} hstate := by
    by_cases hk : k = h
    · subst hk
      exact absurd hstate (hs.state_ne rfl)
    · rw [hs.others k hk] at hstate ⊢
      exact hw.idle hstate
  number hid := by
    rw [hs.id_eq] at hid
    rw [hs.next]
    exact hw.number hid
  once hid hid' := by
    rw [hs.id_eq] at hid hid'
    exact hw.once hid hid'
  unsent {id} hnew := by
    rw [hs.issued_iff] at hnew
    rw [((hs.wire id).unrouted (hw.unrouted_of_not_issued hnew)).2]
    exact hw.unsent hnew
  sent {k id} hid := by
    rw [hs.id_eq] at hid
    rw [hs.request_eq]
    obtain ⟨d, hsent | ⟨hroute, hsent⟩⟩ := hw.sent hid
    · refine ⟨d, ?_⟩
      rcases hs.wire id with ⟨-, hsends⟩ | ⟨-, hgone, ⟨d', hsends⟩ | ⟨-, hsends⟩⟩
      · exact .inl (hsends.trans hsent)
      · exact .inr ⟨hgone, d', by rw [hsends, hsent]; rfl⟩
      · exact .inl (hsends.trans hsent)
    · obtain ⟨hgone, hsends⟩ := (hs.wire id).unrouted hroute
      exact ⟨d, .inr ⟨hgone, hsends ▸ hsent⟩⟩

end Concludes

/-- That an idle handler has got the next id, with nothing done to the others. It is routed if the
message was taken, and has ended otherwise. -/
structure Subscribes (h : HandlerId) (c c' : Session κ μ) : Prop where
  others : ∀ k, k ≠ h → c'.handler k = c.handler k
  idle : (c.handler h).state = .idle
  id : (c'.handler h).id = some (toString c.nextOperation)
  request : (c'.handler h).request = (c.handler h).request
  next : c'.nextOperation = c.nextOperation + 1
  route : ∀ id, id ≠ toString c.nextOperation → c'.routes.get? id = c.routes.get? id
  sends : ∀ id, id ≠ toString c.nextOperation → c'.sendsFor id = c.sendsFor id
  routed : ((c'.handler h).state = .subscribed ∧ c'.routes.get? (toString c.nextOperation) = some h) ∨
    (c'.Over h ∧ c'.routes.get? (toString c.nextOperation) = none)
  sent : ∃ d, c'.sendsFor (toString c.nextOperation) = c.sendsFor (toString c.nextOperation) ++
    [⟨.subscribe (toString c.nextOperation) (c.handler h).request.payload, d⟩]

namespace Subscribes

theorem not_idle (hs : c.Subscribes h c') : (c'.handler h).state ≠ .idle := by
  intro hidle
  rcases hs.routed with ⟨hstate, -⟩ | ⟨hover, -⟩
  · rw [hstate] at hidle
    cases hidle
  · rw [Over, hidle] at hover
    cases hover

/-- An id that is not the new one was there before. -/
theorem id_before (hs : c.Subscribes h c') (hne : id ≠ toString c.nextOperation)
    (hid : (c'.handler k).id = some id) : k ≠ h ∧ (c.handler k).id = some id := by
  have hk : k ≠ h := by
    rintro rfl
    rw [hs.id, Option.some.injEq] at hid
    exact hne hid.symm
  exact ⟨hk, by rwa [hs.others k hk] at hid⟩

/-- The new id is that of the handler alone. -/
theorem eq_of_id (hs : c.Subscribes h c') (hw : c.Wired P)
    (hid : (c'.handler k).id = some (toString c.nextOperation)) : k = h := by
  by_contra hk
  rw [hs.others k hk] at hid
  exact hw.not_issued_next ⟨k, hid⟩

/-- A route that is not the new one leads to another handler. -/
theorem route_before (hs : c.Subscribes h c') (hw : c.Wired P) (hne : id ≠ toString c.nextOperation)
    (hroute : c'.routes.get? id = some k) : k ≠ h ∧ c.routes.get? id = some k := by
  rw [hs.route id hne] at hroute
  refine ⟨?_, hroute⟩
  rintro rfl
  have hid := hw.owner hroute
  rw [hw.idle hs.idle] at hid
  cases hid

theorem wired (hs : c.Subscribes h c') (hw : c.Wired P) : c'.Wired P where
  owner {id k} hroute := by
    by_cases hnew : id = toString c.nextOperation
    · subst hnew
      rcases hs.routed with ⟨-, hroute'⟩ | ⟨-, hroute'⟩
      · rw [hroute', Option.some.injEq] at hroute
        rw [← hroute, hs.id]
      · rw [hroute'] at hroute
        cases hroute
    · obtain ⟨hk, hroute⟩ := hs.route_before hw hnew hroute
      rw [hs.others k hk]
      exact hw.owner hroute
  routed {id k} hroute := by
    by_cases hnew : id = toString c.nextOperation
    · subst hnew
      rcases hs.routed with ⟨hstate, hroute'⟩ | ⟨-, hroute'⟩
      · rw [hroute', Option.some.injEq] at hroute
        exact .inl (hroute ▸ hstate)
      · rw [hroute'] at hroute
        cases hroute
    · obtain ⟨hk, hroute⟩ := hs.route_before hw hnew hroute
      rw [Over, hs.others k hk]
      exact hw.routed hroute
  subscribed {k} hstate := by
    by_cases hk : k = h
    · subst hk
      rcases hs.routed with ⟨-, hroute⟩ | ⟨hover, -⟩
      · exact ⟨_, hroute⟩
      · rw [Over, hstate] at hover
        cases hover
    · rw [hs.others k hk] at hstate
      obtain ⟨id, hroute⟩ := hw.subscribed hstate
      refine ⟨id, (hs.route id ?_).trans hroute⟩
      rintro rfl
      exact hw.not_issued_next ⟨k, hw.owner hroute⟩
  idle {k} hstate := by
    by_cases hk : k = h
    · subst hk
      exact absurd hstate hs.not_idle
    · rw [hs.others k hk] at hstate ⊢
      exact hw.idle hstate
  number {k id} hid := by
    rw [hs.next]
    by_cases hnew : id = toString c.nextOperation
    · exact ⟨_, Nat.lt_succ_self _, hnew⟩
    · obtain ⟨n, hlt, heq⟩ := hw.number (hs.id_before hnew hid).2
      exact ⟨n, Nat.lt_succ_of_lt hlt, heq⟩
  once {k k' id} hid hid' := by
    by_cases hnew : id = toString c.nextOperation
    · subst hnew
      exact (hs.eq_of_id hw hid).trans (hs.eq_of_id hw hid').symm
    · exact hw.once (hs.id_before hnew hid).2 (hs.id_before hnew hid').2
  unsent {id} hnot := by
    have hne : id ≠ toString c.nextOperation := by
      rintro rfl
      exact hnot ⟨h, hs.id⟩
    rw [hs.sends id hne]
    refine hw.unsent fun hissued => hnot ?_
    obtain ⟨k, hid⟩ := hissued
    refine ⟨k, ?_⟩
    rw [hs.others k, hid]
    rintro rfl
    rw [hw.idle hs.idle] at hid
    cases hid
  sent {k id} hid := by
    by_cases hnew : id = toString c.nextOperation
    · subst hnew
      obtain rfl := hs.eq_of_id hw hid
      obtain ⟨d, hsent⟩ := hs.sent
      rw [hw.unsent hw.not_issued_next, List.nil_append] at hsent
      exact ⟨d, .inl (by rw [hsent, hs.request])⟩
    · obtain ⟨hk, hid⟩ := hs.id_before hnew hid
      rw [hs.route id hnew, hs.sends id hnew, hs.others k hk]
      exact hw.sent hid

theorem wireStep (hs : c.Subscribes h c') (hw : c.Wired P) (S : String → Prop) (hissued : c.Issued id) :
    c.WireStep S id c' := by
  have hne : id ≠ toString c.nextOperation := by
    rintro rfl
    exact hw.not_issued_next hissued
  exact .inl ⟨hs.route id hne, hs.sends id hne⟩

end Subscribes

end Client

end GraphClient.Live
