import GraphClient.Proofs.Live.Roots
import GraphClient.Proofs.Live.Routing

/-! What holds of a session at every moment, also in the midst of a call, and what one moment leaves to
all later ones. Callbacks run in the midst of calls, so both are told of single steps; a call is a chain
of steps and of runs of callbacks. -/

namespace GraphClient.Live

namespace Handler

variable {κ : Type}

/-- What a handler keeps once it was executed. -/
structure Persists (s s' : Handler (Callback κ)) : Prop where
  started : s'.state ≠ .idle
  id : s'.id = s.id
  request : s'.request = s.request
  onError : s.onError <+: s'.onError
  onCompleted : s.onCompleted <+: s'.onCompleted

/-- That the callbacks that a handler had at some time were told an event, one after the other. -/
def TellsOnce (callbacks : List (Callback κ)) (event : Event) (told : List (Told κ)) : Prop :=
  ∃ first, first <+: callbacks ∧ told = first.map fun k => ⟨k, event⟩

/-- What the callbacks for the end of a handler may have been told, by its state: nothing before the end,
then those for errors once about its error or those for completion once, and one of these if it was
disposed of. -/
def Announced (s : Handler (Callback κ)) (told : List (Told κ)) : Prop :=
  match s.state with
  | .idle | .subscribed => told = []
  | .errored => ∃ e, s.error = some e ∧ TellsOnce s.onError (.error e) told
  | .completed => TellsOnce s.onCompleted .completed told
  | .disposed =>
      told = [] ∨ (∃ e, TellsOnce s.onError (.error e) told) ∨ TellsOnce s.onCompleted .completed told

theorem TellsOnce.extend {callbacks more : List (Callback κ)} {event : Event} {told : List (Told κ)}
    (ht : TellsOnce callbacks event told) (hmore : callbacks <+: more) : TellsOnce more event told :=
  ht.imp fun _ h => ⟨h.1.trans hmore, h.2⟩

theorem announced_of_not_terminal {s : Handler (Callback κ)} (hstate : ¬s.state.isTerminal = true)
    {told : List (Told κ)} : s.Announced told ↔ told = [] := by
  unfold Announced
  cases hs : s.state <;> rw [hs] at hstate <;> first | rfl | exact absurd rfl hstate

/-- A handler that has ended may still be disposed of. -/
theorem Announced.later {s s' : Handler (Callback κ)} {told : List (Told κ)} (ha : s.Announced told)
    (hover : s.state.isTerminal = true) (hp : s.Persists s')
    (hstate : s'.state = s.state ∨ s'.state = .disposed) (herror : s'.error = s.error) :
    s'.Announced told := by
  unfold Announced at ha ⊢
  rw [herror]
  rcases hstate with hstate | hstate <;> rw [hstate] <;> cases hs : s.state <;> rw [hs] at ha hover
  · cases hover
  · cases hover
  · exact ha.extend hp.onCompleted
  · exact ha.imp fun _ he => ⟨he.1, he.2.extend hp.onError⟩
  · exact ha.imp_right (.imp (.imp fun _ he => he.extend hp.onError) fun he => he.extend hp.onCompleted)
  · cases hover
  · cases hover
  · exact .inr (.inr (ha.extend hp.onCompleted))
  · exact .inr (.inl (ha.imp fun _ he => he.2.extend hp.onError))
  · exact ha.imp_right (.imp (.imp fun _ he => he.extend hp.onError) fun he => he.extend hp.onCompleted)

end Handler

namespace Client

variable {κ μ : Type} {c c' c₁ c₂ : Session κ μ} {P P' E F : HandlerId → Prop} {S : String → Prop}
  {h k : HandlerId} {id : String}

/-- That the objects form trees, of which every handler has its own. -/
structure Rooted (c : Session κ μ) : Prop where
  distinct : c.plans.Distinct
  sound : c.heap.Sound c.plans
  made : ∀ {h r}, (c.handler h).root = some r → c.heap.HasObject r
  loose : ∀ {h r}, (c.handler h).root = some r → c.heap.Loose r
  once : ∀ {h k r}, (c.handler h).root = some r → (c.handler k).root = some r → h = k

/-- That every handler calls back under its own name, and observers under none. -/
structure Named (c : Session κ μ) : Prop where
  observer : ∀ target, ∀ k ∈ (c.watch.get target).callbacks, ∃ b, k = .observer b
  data : ∀ h, ∀ k ∈ (c.handler h).onData, ∃ b, k = .handler h .data b
  error : ∀ h, ∀ k ∈ (c.handler h).onError, ∃ b, k = .handler h .error b
  completed : ∀ h, ∀ k ∈ (c.handler h).onCompleted, ∃ b, k = .handler h .completed b

/-- That nothing was handed over for an operation, once it was issued, after the server had ended it. -/
def Quiet (c : Session κ μ) : Prop :=
  ∀ t ∈ c.host.taken, t.sent ≤ c.sends.length ∧ ∀ id, t.message.ends? = some id →
    (∃ s ∈ c.sends.take t.sent, s.message.id? = some id) →
      c.routes.get? id = none ∧ ∀ s ∈ c.sends.drop t.sent, s.message.id? ≠ some id

/-- What holds at every moment; the handlers in `P` may have ended and still be routed. -/
structure Coherent (P : HandlerId → Prop) (c : Session κ μ) : Prop where
  wired : c.Wired P
  rooted : c.Rooted
  named : c.Named
  quiet : c.Quiet

theorem Coherent.mono (hc : c.Coherent P) (hP : ∀ h, P h → P' h) : c.Coherent P' :=
  { hc with wired := hc.wired.mono hP }

/-- That one moment comes later than another one, the server having ended operations in `S` only. -/
structure Later (S : String → Prop) (c c' : Session κ μ) : Prop where
  plans : c'.plans = c.plans
  kept : ∀ h, (c.handler h).state ≠ .idle → (c.handler h).Persists (c'.handler h)
  ended : ∀ h, c.Over h → ((c'.handler h).state = (c.handler h).state ∨ (c'.handler h).state = .disposed) ∧
    (c'.handler h).error = (c.handler h).error ∧ (c'.handler h).root = (c.handler h).root
  frozen : ∀ h r, c.Over h → (c.handler h).root = some r → c.heap.Frozen c'.heap r
  wire : ∀ id, c.Issued id → c.WireStep S id c'
  sends : c.sends <+: c'.sends

theorem Over.not_idle (hover : c.Over h) : (c.handler h).state ≠ .idle := by
  intro hidle
  rw [Over, hidle] at hover
  cases hover

namespace Later

theorem refl (S : String → Prop) (c : Session κ μ) : c.Later S c :=
  ⟨rfl, fun _ hstate => ⟨hstate, rfl, rfl, List.prefix_rfl, List.prefix_rfl⟩, fun _ _ => ⟨.inl rfl, rfl, rfl⟩,
    fun _ _ _ _ => .refl _ _, fun _ _ => .refl _ _ _, List.prefix_rfl⟩

/-- A handler that has ended stays so. -/
theorem still_over (hl : c.Later S c') (hover : c.Over h) : c'.Over h := by
  rcases (hl.ended h hover).1 with hstate | hstate
  · rw [Over, hstate]
    exact hover
  · rw [Over, hstate]
    rfl

theorem issued (hl : c.Later S c') (hw : c.Wired P) (hissued : c.Issued id) : c'.Issued id := by
  obtain ⟨h, hid⟩ := hissued
  exact ⟨h, (hl.kept h (hw.not_idle hid)).id.trans hid⟩

theorem trans (hfirst : c.Later S c₁) (hw : c.Wired P) (hsecond : c₁.Later S c₂) : c.Later S c₂ where
  plans := hsecond.plans.trans hfirst.plans
  kept h hstate := by
    have hkept := hfirst.kept h hstate
    have hkept' := hsecond.kept h hkept.started
    exact ⟨hkept'.started, hkept'.id.trans hkept.id, hkept'.request.trans hkept.request,
      hkept.onError.trans hkept'.onError, hkept.onCompleted.trans hkept'.onCompleted⟩
  ended h hover := by
    obtain ⟨hstate, herror, hroot⟩ := hfirst.ended h hover
    obtain ⟨hstate', herror', hroot'⟩ := hsecond.ended h (hfirst.still_over hover)
    refine ⟨?_, herror'.trans herror, hroot'.trans hroot⟩
    rcases hstate' with hstate' | hstate'
    · rw [hstate']
      exact hstate
    · exact .inr hstate'
  frozen h r hover hroot :=
    (hfirst.frozen h r hover hroot).trans (hsecond.frozen h r (hfirst.still_over hover)
      ((hfirst.ended h hover).2.2.trans hroot))
  wire id hissued := (hfirst.wire id hissued).trans (hsecond.wire id (hfirst.issued hw hissued))
  sends := hfirst.sends.trans hsecond.sends

end Later

/-- That messages are taken from the server only while their operations are not routed. -/
def TakesUnrouted (c c' : Session κ μ) : Prop :=
  ∀ t ∈ c'.host.taken, t ∈ c.host.taken ∨
    (t.sent = c'.sends.length ∧ ∀ id, t.message.ends? = some id → c'.routes.get? id = none)

theorem TakesUnrouted.of_eq (htaken : c'.host.taken = c.host.taken) : c.TakesUnrouted c' :=
  fun _ ht => .inl (htaken ▸ ht)

theorem TakesUnrouted.take {message : ServerMessage} (htaken : c'.host.taken = (c.take message).host.taken)
    (hsends : c'.sends = c.sends) (hroute : ∀ id, message.ends? = some id → c'.routes.get? id = none) :
    c.TakesUnrouted c' := by
  intro t ht
  rw [htaken] at ht
  refine (List.mem_append.1 ht).imp_right fun ht => ?_
  rw [List.mem_singleton.1 ht, hsends]
  exact ⟨rfl, hroute⟩

/-- What was said of messages that end operations stays true, and is true of a message that comes while
its operation is not routed. -/
theorem Quiet.later (hq : c.Quiet) (hw : c.Wired P) (hl : c.Later S c')
    (htaken : c.TakesUnrouted c') : c'.Quiet := by
  intro t ht
  obtain ⟨more, hmore⟩ := hl.sends
  rcases htaken t ht with hold | ⟨hsent, hroute⟩
  · obtain ⟨hle, hquiet⟩ := hq t hold
    refine ⟨by rw [← hmore, List.length_append]; exact Nat.le_add_right_of_le hle, fun id hends hin => ?_⟩
    rw [← hmore, List.take_append_of_le_length hle] at hin
    obtain ⟨hroute, hdrop⟩ := hquiet id hends hin
    obtain ⟨s, hs, hid⟩ := hin
    have hissued : c.Issued id := by
      by_contra hnew
      have hsome : s ∈ c.sendsFor id := List.mem_filter.2 ⟨List.mem_of_mem_take hs, decide_eq_true hid⟩
      rw [hw.unsent hnew] at hsome
      exact List.not_mem_nil hsome
    obtain ⟨hgone, hsame⟩ := (hl.wire id hissued).unrouted hroute
    refine ⟨hgone, fun s hs => ?_⟩
    rw [← hmore, List.drop_append_of_le_length hle] at hs
    rcases List.mem_append.1 hs with hs | hs
    · exact hdrop s hs
    · rw [sendsFor, ← hmore, List.filter_append] at hsame
      have hnone := List.append_right_eq_self.1 hsame
      exact fun hid => List.not_mem_nil (hnone ▸ List.mem_filter.2 ⟨hs, decide_eq_true hid⟩)
  · refine ⟨Nat.le_of_eq hsent, fun id hends _ => ⟨hroute id hends, ?_⟩⟩
    rw [hsent, List.drop_length]
    exact List.forall_mem_nil _

/-- That the callbacks of a handler hear nothing once it has ended. -/
def Silent (h : HandlerId) (c c' : Session κ μ) : Prop := c.Over h → c'.heard h = c.heard h

/-- What the callbacks for the end of a handler hear between two moments: nothing once it has ended, and
otherwise what its state says. -/
structure Announces (h : HandlerId) (c c' : Session κ μ) : Prop where
  ended : c.Over h → c'.heardEnd h = c.heardEnd h
  once : ¬c.Over h → ∃ told, c'.heardEnd h = c.heardEnd h ++ told ∧ (c'.handler h).Announced told

theorem Announces.trans (hfirst : c.Announces h c₁) (hl : c.Later S c₁) (hl' : c₁.Later S c₂)
    (hsecond : c₁.Announces h c₂) : c.Announces h c₂ where
  ended hover := (hsecond.ended (hl.still_over hover)).trans (hfirst.ended hover)
  once hnot := by
    obtain ⟨told, htold, hannounced⟩ := hfirst.once hnot
    by_cases hover : c₁.Over h
    · refine ⟨told, (hsecond.ended hover).trans htold, ?_⟩
      obtain ⟨hstate, herror, -⟩ := hl'.ended h hover
      exact hannounced.later hover (hl'.kept h hover.not_idle) hstate herror
    · obtain ⟨told', htold', hannounced'⟩ := hsecond.once hover
      rw [Handler.announced_of_not_terminal hover] at hannounced
      subst hannounced
      exact ⟨told', by rw [htold', htold, List.append_nil], hannounced'⟩

/-- A handler may be disposed of without a word. -/
theorem Announces.of_heardEnd (hheard : c'.heardEnd h = c.heardEnd h)
    (hstate : ¬c.Over h → ¬c'.Over h ∨ (c'.handler h).state = .disposed) : c.Announces h c' where
  ended _ := hheard
  once hnot := by
    refine ⟨[], by rw [hheard, List.append_nil], ?_⟩
    rcases hstate hnot with hnot' | hdisposed
    · exact (Handler.announced_of_not_terminal hnot').2 rfl
    · rw [Handler.Announced, hdisposed]
      exact .inl rfl

/-- What leads from one moment to a later one. It is not said what the callbacks of the handlers in `E`
hear, nor what those for the end of handlers in `F` do. -/
structure Turn (S : String → Prop) (P E F : HandlerId → Prop) (c c' : Session κ μ) : Prop where
  coherent : c'.Coherent P
  later : c.Later S c'
  silent : ∀ h, ¬E h → c.Silent h c'
  announces : ∀ h, ¬F h → c.Announces h c'

namespace Turn

theorem refl (hc : c.Coherent P) (S : String → Prop) (E F : HandlerId → Prop) : c.Turn S P E F c :=
  ⟨hc, .refl S c, fun _ _ _ => rfl, fun _ _ => .of_heardEnd rfl .inl⟩

theorem trans {P₀ : HandlerId → Prop} (hfirst : c.Turn S P E F c₁) (hw : c.Wired P₀)
    (hsecond : c₁.Turn S P' E F c₂) : c.Turn S P' E F c₂ where
  coherent := hsecond.coherent
  later := hfirst.later.trans hw hsecond.later
  silent h hE hover := (hsecond.silent h hE (hfirst.later.still_over hover)).trans (hfirst.silent h hE hover)
  announces h hF := (hfirst.announces h hF).trans hfirst.later hsecond.later (hsecond.announces h hF)

theorem weaken (ht : c.Turn S P E F c') {E' F' : HandlerId → Prop} (hE : ∀ h, E h → E' h)
    (hF : ∀ h, F h → F' h) : c.Turn S P E' F' c' :=
  ⟨ht.coherent, ht.later, fun h hnot => ht.silent h fun hin => hnot (hE h hin),
    fun h hnot => ht.announces h fun hin => hnot (hF h hin)⟩

end Turn

end Client

end GraphClient.Live
