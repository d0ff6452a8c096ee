import GraphClient.Proofs.Live.Calls
import GraphClient.Proofs.Live.Plans

/-! What programs can rely on. Handlers end once and stay ended, the routes are those of the subscribed
handlers, and for every operation the server is told once that it begins and at most once that it is
given up: never after its own word that the operation has ended, and always when the client ends an
operation that the server has not ended. -/

namespace GraphClient.Live

section Lifecycle

variable {κ μ : Type} {plans : Plans}

namespace Client

theorem begin_coherent (hd : plans.Distinct) (memory : μ) (P : HandlerId → Prop) :
    (Client.begin plans memory : Session κ μ).Coherent P := by
  have hblank : ∀ h, (Client.begin plans memory : Session κ μ).handler h = default := fun _ =>
    Arena.get_eq_default (Nat.zero_le _)
  have hroot : ∀ {h r}, ((Client.begin plans memory : Session κ μ).handler h).root ≠ some r := by
    intro h r heq
    rw [hblank] at heq
    cases heq
  refine ⟨.begin plans memory, ⟨hd, .empty, fun h => absurd h hroot, fun h => absurd h hroot,
    fun h => absurd h hroot⟩, ⟨fun target k hk => ?_, fun h => ?_, fun h => ?_, fun h => ?_⟩, nofun⟩
  · cases target <;> cases hk
  all_goals
    rw [hblank]
    exact nofun

end Client

/-- A run in which the server may end any operation. -/
theorem Program.turn_all {P : HandlerId → Prop} (p : Program κ μ) {c : Session κ μ} (hc : c.Coherent P) :
    c.Turn (fun _ => True) P (fun _ => False) (fun _ => False) (p.run c) :=
  p.turn (p.takes_all.mono fun _ _ _ _ => trivial) hc

/-- A run from the beginning. -/
theorem Program.coherent (hd : plans.Distinct) (memory : μ) (p : Program κ μ) :
    (p.run (.begin plans memory)).Coherent fun _ => False :=
  (p.turn_all (Client.begin_coherent hd memory _)).coherent

/-- **The life of a handler.** In every state that a program reaches, a route leads to just the subscribed
handler with its id. A handler that has ended can only be disposed of from there, whatever the program and
its callbacks go on to do. The callbacks for its end were told as its state says: each once at most, and
those for errors or those for completion. And from there on its root and everything below, and its error,
are as they are, and none of its callbacks is told anything. -/
theorem lives_of_handlers {schema : Introspection.Schema} {graph : TypeGraph} {scalars : Registry}
    (hgraph : TypeGraph.build schema = .ok graph)
    (hplans : Plans.build graph scalars = .ok plans) (memory : μ) (p later : Program κ μ) :
    let c := p.run (.begin plans memory)
    let c' := later.run c
    (∀ id h, c.routes.get? id = some h ↔ (c.handler h).state = .subscribed ∧ (c.handler h).id = some id) ∧
      (∀ h, c.Over h → (c'.handler h).state = (c.handler h).state ∨ (c'.handler h).state = .disposed) ∧
      (∀ h, (c.handler h).Announced (c.heardEnd h)) ∧
      ∀ h, c.Over h → (c'.handler h).error = (c.handler h).error ∧ (c'.handler h).root = (c.handler h).root ∧
        (∀ r, (c.handler h).root = some r → c.heap.Frozen c'.heap r) ∧ c'.heard h = c.heard h := by
  intro c c'
  have hbegin := Client.begin_coherent (κ := κ) (Plans.distinct_of_build hgraph hplans) memory fun _ => False
  have hp := p.turn_all hbegin
  have hlater := later.turn_all hp.coherent
  have hw := hp.coherent.wired
  refine ⟨fun id h => ⟨fun hroute => ?_, fun ⟨hstate, hid⟩ => ?_⟩,
    fun h hover => (hlater.later.ended h hover).1, fun h => ?_, fun h hover => ?_⟩
  · exact ⟨(hw.routed hroute).resolve_right fun hin => hin.2, hw.owner hroute⟩
  · obtain ⟨other, hother, hroute⟩ := hw.route hstate
    rw [hid, Option.some.injEq] at hother
    exact hother ▸ hroute
  · have hidle : ¬(Client.begin plans memory : Session κ μ).Over h := by
      rw [Client.Over, Client.handler, Arena.get_eq_default (Nat.zero_le _)]
      exact Bool.false_ne_true
    obtain ⟨told, htold, hannounced⟩ := (hp.announces h id).once hidle
    rw [htold]
    exact hannounced
  · obtain ⟨-, herror, hroot⟩ := hlater.later.ended h hover
    exact ⟨herror, hroot, fun r hr => hlater.later.frozen h r hover hr, hlater.silent h id hover⟩

section Sample

/-- The data of a response with a title. -/
def titleData (title : String) : Json := .object [("data", .object [("title", .string title)])]

/-- A program with one handler, whose operation gets data and is then completed by the server. -/
def sampleProgram : Program Unit Unit :=
  .just (.create ⟨"Home", "query Home { title }", "Query", []⟩ [()] [()] [()]) <|
    .just (.execute ⟨0⟩) <|
      .just (.dispatch (.next (toString 1) (titleData "a"))) <| .just
        (.dispatch (.complete (toString 1))) .done

/-- A program in which more data comes for the handler after its end, and the handler is disposed of. -/
def sampleAftermath : Program Unit Unit :=
  .just (.dispatch (.next (toString 1) (titleData "b"))) <| .just (.dispose ⟨0⟩) .done

theorem life_of_sample_handler :
    TypeGraph.build (sampleSchema []) = .ok (sampleGraph []) ∧
      Plans.build (sampleGraph []) .standard = .ok (samplePlans []) ∧
      let c := sampleProgram.run (.begin (samplePlans []) ())
      let c' := sampleAftermath.run c
      ((c.handler ⟨0⟩).state = .completed ∧ (c.handler ⟨0⟩).root = some ⟨0⟩ ∧
        (c'.handler ⟨0⟩).state = .disposed) ∧
        (∀ id h, c.routes.get? id = some h ↔ (c.handler h).state = .subscribed ∧ (c.handler h).id = some id) ∧
        (∀ h, c.Over h → (c'.handler h).state = (c.handler h).state ∨ (c'.handler h).state = .disposed) ∧
        (∀ h, (c.handler h).Announced (c.heardEnd h)) ∧
        ∀ h, c.Over h → (c'.handler h).error = (c.handler h).error ∧
        (c'.handler h).root = (c.handler h).root ∧
          (∀ r, (c.handler h).root = some r → c.heap.Frozen c'.heap r) ∧ c'.heard h = c.heard h :=
  ⟨build_sampleSchema, build_samplePlans, by decide +kernel,
    lives_of_handlers build_sampleSchema build_samplePlans () sampleProgram sampleAftermath⟩

end Sample

/-- A run in which the server does not end an operation. The operation is still routed, or the server was
told that it is given up. -/
theorem Program.gives_up {P : HandlerId → Prop} {id : String} {h : HandlerId} (p : Program κ μ)
    (hp : p.Takes fun m => m.ends? ≠ some id) {c : Session κ μ} (hc : c.Coherent P)
    (hroute : c.routes.get? id = some h) :
    ((p.run c).routes.get? id = some h ∧ (p.run c).sendsFor id = c.sendsFor id) ∨
      ((p.run c).routes.get? id = none ∧ ∃ d, (p.run c).sendsFor id = c.sendsFor id ++
        [⟨.complete id, d⟩]) := by
  have ht := p.turn (S := fun other => other ≠ id) (hp.mono fun m hm other hends heq => hm (heq ▸ hends)) hc
  rcases ht.later.wire id (hc.wired.issued hroute) with ⟨hsame, hsends⟩ | ⟨-, hgone, hsends | ⟨hne, -⟩⟩
  · exact .inl ⟨hsame.trans hroute, hsends⟩
  · exact .inr ⟨hgone, hsends⟩
  · exact absurd rfl hne

/-- **What is handed over for an operation.** In every state that a program reaches, the messages for an
operation id are one subscription, if a handler has the id, and then at most one word that it is given up;
an id belongs to one handler for ever. Once the server has ended an operation, nothing more is handed over
for it. While the server does not end it, its handler is subscribed and nothing is handed over, or it is
not, and the server was told once; and when the server ends it, nothing is handed over. -/
theorem sends_for_operations {schema : Introspection.Schema} {graph : TypeGraph} {scalars : Registry}
    (hgraph : TypeGraph.build schema = .ok graph)
    (hplans : Plans.build graph scalars = .ok plans) (memory : μ) (p later : Program κ μ) :
    let c := p.run (.begin plans memory)
    let c' := later.run c
    (∀ id, (c.sendsFor id = [] ∧ ∀ h, (c.handler h).id ≠ some id) ∨
      ∃ h payload d, (c.handler h).id = some id ∧
        (c.sendsFor id = [⟨.subscribe id payload, d⟩] ∨
          ∃ d', c.sendsFor id = [⟨.subscribe id payload, d⟩, ⟨.complete id, d'⟩])) ∧
      (∀ h k id, (c.handler h).id = some id → (c'.handler k).id = some id → h = k) ∧
      (∀ t ∈ c.host.taken, ∀ id, t.message.ends? = some id →
        (∃ s ∈ c.sends.take t.sent, s.message.id? = some id) →
        ∀ s ∈ c.sends.drop t.sent, s.message.id? ≠ some id) ∧
      ∀ h id, (c.handler h).state = .subscribed → (c.handler h).id = some id →
        ((later.Takes fun m => m.ends? ≠ some id) →
          if (c'.handler h).state = .subscribed then c'.sendsFor id = c.sendsFor id
          else ∃ d, c'.sendsFor id = c.sendsFor id ++ [⟨.complete id, d⟩]) ∧
        ∀ message react, message.ends? = some id →
          (((Program.call (.dispatch message) react .done).run c).handler h).state ≠ .subscribed ∧
            ((Program.call (.dispatch message) react .done).run c).sendsFor id = c.sendsFor id := by
  intro c c'
  have hc : c.Coherent _ := p.coherent (Plans.distinct_of_build hgraph hplans) memory
  have hlater := later.turn_all hc
  have hw := hc.wired
  refine ⟨fun id => ?_, fun h k id hid hid' => ?_,
    fun t ht id hends hin => ((hc.quiet t ht).2 id hends hin).2,
    fun h id hstate hid => ⟨fun htakes => ?_, fun message react hends => ?_⟩⟩
  · by_cases hissued : c.Issued id
    · obtain ⟨h, hid⟩ := hissued
      obtain ⟨d, hsent | ⟨-, d', hsent⟩⟩ := hw.sent hid
      · exact .inr ⟨h, _, d, hid, .inl hsent⟩
      · exact .inr ⟨h, _, d, hid, .inr ⟨d', hsent⟩⟩
    · exact .inl ⟨hw.unsent hissued, fun h hid => hissued ⟨h, hid⟩⟩
  · have hkept := (hlater.later.kept h (hw.not_idle hid)).id.trans hid
    exact hlater.coherent.wired.once hkept hid'
  · obtain ⟨other, hother, hroute⟩ := hw.route hstate
    rw [hid, Option.some.injEq] at hother
    subst hother
    have hkept := (hlater.later.kept h (hw.not_idle hid)).id.trans hid
    rcases later.gives_up htakes hc hroute with ⟨hroute', hsends⟩ | ⟨hgone, hsends⟩
    · rw [if_pos ((hlater.coherent.wired.routed hroute').resolve_right fun hin => hin.2)]
      exact hsends
    · rw [if_neg]
      · exact hsends
      · intro hstate'
        obtain ⟨other, hother, hroute'⟩ := hlater.coherent.wired.route hstate'
        rw [hkept, Option.some.injEq] at hother
        rw [← hother, hgone] at hroute'
        cases hroute'
  · obtain ⟨other, hother, hroute⟩ := hw.route hstate
    rw [hid, Option.some.injEq] at hother
    subst hother
    have hobeys := Program.obeys_of_turn fun k e Q _ hc' => (react k e).turn_all (P := Q) hc'
    obtain ⟨hgone, hsends⟩ := hobeys.unrouted_dispatch hc hroute trivial hends
    refine ⟨fun hstate' => ?_, hsends⟩
    have hstep := (Program.call (.dispatch message) react .done).turn_all hc
    obtain ⟨other, hother, hroute'⟩ := hstep.coherent.wired.route hstate'
    rw [(hstep.later.kept h (hw.not_idle hid)).id.trans hid, Option.some.injEq] at hother
    rw [← hother] at hroute'
    cases hgone.symm.trans hroute'

/-- A program with two handlers, of which the server completes the first. -/
def halfwayProgram : Program Unit Unit :=
  .just (.create ⟨"Home", "query Home { title }", "Query", []⟩ [()] [()] [()]) <|
    .just (.create ⟨"News", "query News { title }", "Query", []⟩ [()] [()] [()]) <|
      .just (.execute ⟨0⟩) <| .just (.execute ⟨1⟩) <| .just (.dispatch (.complete (toString 1))) .done

/-- Nothing is said about the operation that the server completed, and the server is told that the
other one is given up as its handler is disposed of, but not if the server ends it. -/
theorem sends_for_sample_operation :
    TypeGraph.build (sampleSchema []) = .ok (sampleGraph []) ∧
      Plans.build (sampleGraph []) .standard = .ok (samplePlans []) ∧
      let c := halfwayProgram.run (.begin (samplePlans []) ())
      let c' := (Program.just (.dispose ⟨1⟩) .done).run c
      ((c.handler ⟨0⟩).state = .completed ∧ (c.handler ⟨1⟩).state = .subscribed ∧
          (c.handler ⟨1⟩).id = some (toString 2) ∧ (c'.handler ⟨1⟩).state = .disposed) ∧
        (∀ id, (c.sendsFor id = [] ∧ ∀ h, (c.handler h).id ≠ some id) ∨
          ∃ h payload d, (c.handler h).id = some id ∧
          (c.sendsFor id = [⟨.subscribe id payload, d⟩] ∨
            ∃ d', c.sendsFor id = [⟨.subscribe id payload, d⟩, ⟨.complete id, d'⟩])) ∧
        (∀ h k id, (c.handler h).id = some id → (c'.handler k).id = some id → h = k) ∧
        (∀ t ∈ c.host.taken, ∀ id, t.message.ends? = some id →
          (∃ s ∈ c.sends.take t.sent, s.message.id? = some id) → ∀ s ∈ c.sends.drop t.sent,
            s.message.id? ≠ some id) ∧
        (∃ d, c'.sendsFor (toString 2) = c.sendsFor (toString 2) ++ [⟨.complete (toString 2), d⟩]) ∧
        ∀ message react, message.ends? = some (toString 2) →
          (((Program.call (.dispatch message) react .done).run c).handler ⟨1⟩).state ≠ .subscribed ∧
            ((Program.call (.dispatch message) react .done).run c).sendsFor (toString 2) =
              c.sendsFor (toString 2) := by
  have hstate : ((halfwayProgram.run (.begin (samplePlans []) ())).handler ⟨1⟩).state = .subscribed := by
    decide +kernel
  have hid : ((halfwayProgram.run (.begin (samplePlans []) ())).handler ⟨1⟩).id = some (toString 2) := by
    decide +kernel
  obtain ⟨hsent, howner, hquiet, hends⟩ :=
    sends_for_operations build_sampleSchema build_samplePlans () halfwayProgram
    (.just (.dispose ⟨1⟩) .done)
  refine ⟨build_sampleSchema, build_samplePlans, by decide +kernel, hsent, howner, hquiet, ?_,
    (hends ⟨1⟩ (toString 2) hstate hid).2⟩
  have hgiven := (hends ⟨1⟩ (toString 2) hstate hid).1 ⟨trivial, fun _ _ => trivial, trivial⟩
  rwa [if_neg (by decide +kernel)] at hgiven

/-- A program in which the server ends an operation before it begins. -/
def earlyProgram : Program Unit Unit :=
  .just (.dispatch (.error (toString 1) .null)) <|
    .just (.create ⟨"Home", "query Home { title }", "Query", []⟩ [] [] []) <|
      .just (.execute ⟨0⟩) <| .just (.dispose ⟨0⟩) .done

/-- A program in which an operation fails by the errors of a response, and the server ends it while the
callback for that is running. -/
def crossingProgram : Program Unit Unit :=
  .just (.create ⟨"Home", "query Home { title }", "Query", []⟩ [] [()] []) <|
    .just (.execute ⟨0⟩) <|
      .call (.dispatch (.next (toString 1) (.object [("errors", .array [.null])])))
        (fun _ _ => .just (.dispatch (.error (toString 1) .null)) .done) .done

/-- The word that an operation is given up may follow the server's word about its id, if that came before
the id was given out; and it is not said of an operation that fails by a response if the server ends it
meanwhile. -/
theorem not_sends_for_operations :
    (∃ t ∈ (earlyProgram.run (.begin (samplePlans []) ())).host.taken, t.message.ends? = some (toString 1) ∧
      ∃ s ∈ (earlyProgram.run (.begin (samplePlans []) ())).sends.drop t.sent, ∃ d,
        s = ⟨.complete (toString 1), d⟩) ∧
      ((crossingProgram.run (.begin (samplePlans []) ())).handler ⟨0⟩).error =
        some (.server (.array [.null])) ∧
      ∀ s ∈ (crossingProgram.run (.begin (samplePlans []) ())).sends,
        ∀ d, s ≠ ⟨.complete (toString 1), d⟩ := by
  have htaken : (earlyProgram.run (.begin (samplePlans []) ())).host.taken =
      [⟨.error (toString 1) .null, 0⟩] := rfl
  have hearly : (earlyProgram.run (.begin (samplePlans []) ())).sends =
      [⟨.subscribe (toString 1) ⟨"query Home { title }", some "Home", []⟩, true⟩,
        ⟨.complete (toString 1), true⟩] := rfl
  have hcrossing : (crossingProgram.run (.begin (samplePlans []) ())).sends =
      [⟨.subscribe (toString 1) ⟨"query Home { title }", some "Home", []⟩, true⟩] := rfl
  refine ⟨⟨⟨.error (toString 1) .null, 0⟩, ?_, rfl, ⟨.complete (toString 1), true⟩, ?_, true, rfl⟩, rfl, ?_⟩
  · rw [htaken]
    exact List.mem_singleton_self _
  · rw [hearly]
    exact List.mem_cons_of_mem _ (List.mem_singleton_self _)
  · rw [hcrossing]
    intro s hs d
    rw [List.mem_singleton.1 hs]
    exact nofun

end Lifecycle

end GraphClient.Live
