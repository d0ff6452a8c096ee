import GraphClient.Proofs.Live.Calls
import GraphClient.Proofs.Live.Plans
import GraphClient.Proofs.Live.Scripts

/-! Subscriptions. At every moment of a run the observers of a target are those that were registered
there and not removed since, in the order in which they were registered; no target gives out a number
again, a subscription stands for just one observer, and a notification calls the observers that are
there. All this is read off the ledger (`Watch.Accords`).

Taking an observer away by way of a target minds the target if that is an object. A list takes away
any observer at all, so that the answer is that of the list just if the subscription is its own or
stands for nothing any more (`Script.minds_subscriptions`). -/

namespace GraphClient.Live

variable {κ μ σ : Type}

namespace Registration

/-- The subscriptions that were given out, in order. -/
def issued (entries : List (Registration κ)) : List Subscription :=
  entries.filterMap fun
    | observed s _ _ => some s
    | removed _ => none

/-- The subscriptions whose observers were removed. -/
def withdrawn (entries : List (Registration κ)) : List Subscription :=
  entries.filterMap fun
    | observed _ _ _ => none
    | removed s => some s

/-- That a subscription was given out and its observer was not removed. -/
def Standing (entries : List (Registration κ)) (s : Subscription) : Prop :=
  s ∈ issued entries ∧ s ∉ withdrawn entries

/-- The observers of a target that were registered and are not among those gone. -/
def observersBut (gone : List Subscription) (target : Target) (entries : List (Registration κ)) :
    List (Observer κ) :=
  entries.filterMap fun
    | observed s field callback =>
        if s.target = target ∧ s ∉ gone then some ⟨s.number, field, callback⟩ else none
    | removed _ => none

/-- The observers of a target that were registered and not removed. -/
def observers (entries : List (Registration κ)) (target : Target) : List (Observer κ) :=
  observersBut (withdrawn entries) target entries

/-- Who is to be called for a notification, and what they are to be told. -/
def calls (entries : List (Registration κ)) : Notification → List (κ × Event)
  | .field o name =>
      ((observers entries (.object o)).filter (·.concerns name)).map fun k => (k.callback, .field o name)
  | .list l changes =>
      changes.flatMap fun change => (observers entries (.list l)).map fun k => (k.callback, .list l change)

variable {entries : List (Registration κ)} {s : Subscription} {target : Target}

@[simp] theorem issued_observed (field : Option String) (callback : κ) :
    issued (entries ++ [.observed s field callback]) = issued entries ++ [s] := by simp [issued]

@[simp] theorem issued_removed : issued (entries ++ [.removed s]) = issued entries := by simp [issued]

@[simp] theorem withdrawn_observed (field : Option String) (callback : κ) :
    withdrawn (entries ++ [.observed s field callback]) = withdrawn entries := by simp [withdrawn]

@[simp] theorem withdrawn_removed :
    withdrawn (entries ++ [.removed s]) = withdrawn entries ++ [s] := by simp [withdrawn]

theorem mem_issued : s ∈ issued entries ↔ ∃ field callback, .observed s field callback ∈ entries := by
  simp only [issued, List.mem_filterMap]
  constructor
  · rintro ⟨e, he, hs⟩
    cases e with
    | observed s' field callback =>
        obtain rfl := Option.some.inj hs
        exact ⟨field, callback, he⟩
    | removed s' => cases hs
  · rintro ⟨field, callback, he⟩
    exact ⟨_, he, rfl⟩

theorem mem_observersBut {gone : List Subscription} {o : Observer κ} :
    o ∈ observersBut gone target entries ↔
      .observed ⟨o.number, target⟩ o.field o.callback ∈ entries ∧ ⟨o.number, target⟩ ∉ gone := by
  simp only [observersBut, List.mem_filterMap]
  constructor
  · rintro ⟨e, he, ho⟩
    cases e with
    | observed s field callback =>
        dsimp only at ho
        split at ho
        · rename_i hs
          obtain rfl := Option.some.inj ho
          obtain ⟨rfl, hgone⟩ := hs
          exact ⟨he, hgone⟩
        · cases ho
    | removed s => cases ho
  · rintro ⟨he, hgone⟩
    exact ⟨_, he, if_pos ⟨rfl, hgone⟩⟩

/-- A subscription stands just if its observer is one of its target. -/
theorem standing_iff : Standing entries s ↔ ∃ o ∈ observers entries s.target, o.number = s.number := by
  rw [Standing, mem_issued]
  constructor
  · rintro ⟨⟨field, callback, he⟩, hs⟩
    exact ⟨⟨s.number, field, callback⟩, mem_observersBut.2 ⟨he, hs⟩, rfl⟩
  · rintro ⟨o, ho, hnumber⟩
    obtain ⟨he, hs⟩ := mem_observersBut.1 ho
    rw [hnumber] at he hs
    exact ⟨⟨_, _, he⟩, hs⟩

/-- A registration comes behind the observers of its target. -/
theorem observers_observed (hs : s ∉ withdrawn entries) (field : Option String)
    (callback : κ) (target : Target) :
    observers (entries ++ [.observed s field callback]) target =
      observers entries target ++ if s.target = target then [⟨s.number, field, callback⟩] else [] := by
  rw [observers, withdrawn_observed, observersBut, List.filterMap_append]
  by_cases htarget : s.target = target
  · simp [observers, observersBut, htarget, hs]
  · simp [observers, observersBut, htarget]

/-- A removal takes the one observer away. -/
theorem observers_removed (s : Subscription) (target : Target) :
    observers (entries ++ [.removed s]) target =
      (observers entries target).filter fun o => (⟨o.number, target⟩ : Subscription) ≠ s := by
  have hlast : observersBut (withdrawn entries ++ [s]) target [.removed s] = ([] : List (Observer κ)) := rfl
  rw [observers, withdrawn_removed, observersBut, List.filterMap_append, ← observersBut,
    ← observersBut, hlast,
    List.append_nil, observers, observersBut, observersBut, List.filter_filterMap]
  -- registrations stay in the ledger, and a removed one is left out when it is read
  apply List.filterMap_congr
  intro e _
  cases e with
  | observed s' field callback =>
      by_cases hstays : s'.target = target ∧ s' ∉ withdrawn entries
      · obtain ⟨rfl, hs'⟩ := hstays
        by_cases hsame : s' = s
        · subst hsame
          simp [hs', Option.filter]
        · simp [hs', hsame, Option.filter]
      · have hmore : ¬(s'.target = target ∧ s' ∉ withdrawn entries ++ [s]) := fun h =>
          hstays ⟨h.1, fun hmem => h.2 (List.mem_append_left _ hmem)⟩
        simp only [if_neg hstays, if_neg hmore, Option.filter_none]
  | removed s' => rfl

end Registration

open Registration

/-- That observers are as a ledger says, and every target has numbers left that it never gave out. -/
structure Watch.Accords (w : Watch κ) (entries : List (Registration κ)) : Prop where
  observers : ∀ target, (w.get target).entries = observers entries target
  number : ∀ s ∈ issued entries, s.number < (w.get s.target).next
  nodup : (issued entries).Nodup
  removed : withdrawn entries ⊆ issued entries

namespace Watch

variable {w w' : Watch κ} {entries : List (Registration κ)} {s : Subscription} {target : Target}

theorem get_empty (target : Target) : (empty : Watch κ).get target = ⟨0, []⟩ := by
  cases target with
  | object o => exact Arena.get_eq_default (a := .empty) (Nat.zero_le o.number)
  | list l => exact Arena.get_eq_default (a := .empty) (Nat.zero_le l.number)

theorem get_observe (w : Watch κ) (target other : Target) (field : Option String) (callback : κ) :
    (w.observe target field callback).2.get other =
      if other = target then ((w.get target).add field callback).2 else w.get other :=
  get_set w target other _

theorem next_observe (w : Watch κ) (target other : Target) (field : Option String) (callback : κ) :
    ((w.observe target field callback).2.get other).next =
      if other = target then (w.get other).next + 1 else (w.get other).next := by
  rw [get_observe]
  by_cases hother : other = target
  · rw [if_pos hother, if_pos hother, hother]
    rfl
  · rw [if_neg hother, if_neg hother]

theorem get_cancel (w : Watch κ) (s : Subscription) (other : Target) :
    (w.cancel s).2.get other = if other = s.target then (w.get s.target).remove s.number else w.get other :=
  get_set w s.target other _

theorem next_cancel (w : Watch κ) (s : Subscription) (other : Target) :
    ((w.cancel s).2.get other).next = (w.get other).next := by
  rw [get_cancel]
  by_cases hother : other = s.target
  · rw [if_pos hother, hother]
    rfl
  · rw [if_neg hother]

/-- Cancelling takes an observer from its target, and from no other one. -/
theorem entries_cancel (w : Watch κ) (s : Subscription) (other : Target) :
    ((w.cancel s).2.get other).entries =
      (w.get other).entries.filter fun o => (⟨o.number, other⟩ : Subscription) ≠ s := by
  rw [get_cancel]
  by_cases hother : other = s.target
  · subst hother
    rw [if_pos rfl]
    apply List.filter_congr
    intro o _
    have hsame : (⟨o.number, s.target⟩ : Subscription) = s ↔ o.number = s.number :=
      ⟨fun h => congrArg Subscription.number h, fun h => by rw [h]⟩
    exact decide_eq_decide.2 (not_congr hsame.symm)
  · rw [if_neg hother, eq_comm, List.filter_eq_self]
    exact fun o _ => decide_eq_true fun h => hother (congrArg Subscription.target h)

namespace Accords

theorem empty : (empty : Watch κ).Accords [] where
  observers target := by
    rw [get_empty]
    rfl
  number _ hs := absurd hs List.not_mem_nil
  nodup := List.nodup_nil
  removed := List.nil_subset _

/-- An observer gets a number that its target never gave out. -/
theorem observe (h : w.Accords entries) (target : Target) (field : Option String) (callback : κ) :
    (w.observe target field callback).2.Accords
      (entries ++ [.observed (w.observe target field callback).1 field callback]) := by
  obtain ⟨s, hs⟩ : ∃ s, s = (w.observe target field callback).1 := ⟨_, rfl⟩
  have htarget : s.target = target := by
    rw [hs]
    rfl
  have hnumber : s.number = (w.get target).next := by
    rw [hs]
    rfl
  have hnew : s ∉ issued entries := fun hmem => by
    have hlt := h.number s hmem
    rw [htarget, hnumber] at hlt
    exact Nat.lt_irrefl _ hlt
  rw [← hs]
  constructor
  · intro other
    rw [get_observe, observers_observed (mt (@h.removed s) hnew), htarget]
    by_cases hother : other = target
    · subst hother
      rw [if_pos rfl, if_pos rfl, hnumber, ← h.observers]
      rfl
    · rw [if_neg hother, if_neg (Ne.symm hother), List.append_nil, h.observers]
  · intro s' hs'
    rw [issued_observed, List.mem_append, List.mem_singleton] at hs'
    rw [next_observe]
    rcases hs' with hs' | rfl
    · have hlt := h.number s' hs'
      split <;> omega
    · rw [if_pos htarget, htarget, hnumber]
      exact Nat.lt_succ_self _
  · rw [issued_observed, List.nodup_append]
    refine ⟨h.nodup, List.nodup_singleton s, fun s' hs' other hother heq => hnew ?_⟩
    rwa [← List.mem_singleton.1 hother, ← heq]
  · rw [withdrawn_observed, issued_observed]
    exact fun s' hs' => List.mem_append_left _ (h.removed hs')

theorem cancel_fst (h : w.Accords entries) (s : Subscription) :
    (w.cancel s).1 = true ↔ Standing entries s := by
  rw [standing_iff, ← h.observers]
  change ((w.get s.target).entries.any fun o => o.number = s.number) = true ↔ _
  simp

/-- What does not stand for an observer cancels none. -/
theorem entries_cancel_of_not_standing (h : w.Accords entries) (hs : ¬Standing entries s) (target : Target) :
    ((w.cancel s).2.get target).entries = (w.get target).entries := by
  rw [entries_cancel, List.filter_eq_self]
  intro o ho
  apply decide_eq_true
  rintro rfl
  exact hs (standing_iff.2 ⟨o, h.observers target ▸ ho, rfl⟩)

/-- A removal that is put down if there was one. -/
theorem cancel (h : w.Accords entries) (s : Subscription) :
    (w.cancel s).2.Accords (if (w.cancel s).1 then entries ++ [.removed s] else entries) := by
  have hnumber : ∀ s' ∈ issued entries, s'.number < ((w.cancel s).2.get s'.target).next := fun s' hs' => by
    rw [next_cancel]
    exact h.number s' hs'
  by_cases hs : Standing entries s
  · rw [if_pos ((h.cancel_fst s).2 hs)]
    constructor
    · intro target
      rw [entries_cancel, observers_removed, h.observers]
    · rwa [issued_removed]
    · rw [issued_removed]
      exact h.nodup
    · rw [withdrawn_removed, issued_removed]
      exact List.append_subset.2 ⟨h.removed, List.cons_subset.2 ⟨hs.1, List.nil_subset _⟩⟩
  · rw [if_neg (mt (h.cancel_fst s).1 hs)]
    refine ⟨fun target => ?_, hnumber, h.nodup, h.removed⟩
    rw [h.entries_cancel_of_not_standing hs, h.observers]

theorem unobserve (h : w.Accords entries) (target : Target) (s : Subscription) :
    (w.unobserve target s).2.Accords (if (w.unobserve target s).1 then entries ++
      [.removed s] else entries) := by
  cases target with
  | object o =>
      by_cases hs : s.target = .object o
      · simp only [Watch.unobserve, if_pos hs]
        exact h.cancel s
      · simp only [Watch.unobserve, if_neg hs]
        exact h
  | list l => exact h.cancel s

end Accords

end Watch

namespace Client

/-- That the observers of a client are as its ledger says. -/
def Accords (c : Watched κ μ) : Prop := c.watch.Accords c.host.entries

/-- What is asked of taking an observer away by way of a target: the answer tells whether it is an
observer of that target, which is then removed as by cancelling, and otherwise no observer is. -/
structure Heeds (c : Watched κ μ) (x : Target) (s : Subscription) : Prop where
  answer : (c.unobserve x s).1 = true ↔ s.target = x ∧ Standing c.host.entries s
  removes : s.target = x → c.unobserve x s = c.cancel s
  keeps : ¬(s.target = x ∧ Standing c.host.entries s) →
    ∀ target, ((c.unobserve x s).2.watch.get target).entries = (c.watch.get target).entries

/-- How subscriptions are minded by a client: no number is given out twice by a target, the observers
that there are are those that were registered and not removed, cancelling removes just the one, and so
does an object for its own subscriptions, but a list does for all; and a notification calls the
observers that are there, one after the other. -/
structure MindsSubscriptions (c : Watched κ μ) : Prop where
  distinct : (issued c.host.entries).Nodup
  registered : ∀ target, (c.watch.get target).entries = observers c.host.entries target
  cancelled : ∀ s, (c.cancel s).1 = true ↔ Standing c.host.entries s
  removes : ∀ s target, ((c.cancel s).2.watch.get target).entries =
    (c.watch.get target).entries.filter fun o => (⟨o.number, target⟩ : Subscription) ≠ s
  object : ∀ o s, c.Heeds (.object o) s
  list : ∀ l s, c.Heeds (.list l) s ↔ (s.target = .list l ∨ ¬Standing c.host.entries s)
  calls : ∀ react n, c.notify react n = (calls c.host.entries n).foldl (fun c call => react call.1 call.2 c) c

variable {c : Watched κ μ}

theorem Accords.summons (h : c.Accords) (n : Notification) :
    c.summons n = Registration.calls c.host.entries n := by
  cases n with
  | field o name =>
      simp only [Client.summons, Registration.calls, Observers.callbacksFor, h.observers, List.map_map]
      rfl
  | list l changes =>
      simp only [Client.summons, Registration.calls, Observers.callbacks, h.observers, List.map_map]
      rfl

theorem heeds_object (h : c.Accords) (o : ObjectId) (s : Subscription) : c.Heeds (.object o) s := by
  by_cases hs : s.target = .object o
  · have hcancel : c.unobserve (.object o) s = c.cancel s := by
      simp only [Client.unobserve, Watch.unobserve, if_pos hs]
      rfl
    refine ⟨?_, fun _ => hcancel, fun hnot target => ?_⟩
    · rw [hcancel, and_iff_right hs]
      exact h.cancel_fst s
    · rw [hcancel]
      exact h.entries_cancel_of_not_standing (fun hstanding => hnot ⟨hs, hstanding⟩) target
  · have hrefused : c.unobserve (.object o) s = (false, c) := by
      simp only [Client.unobserve, Watch.unobserve, if_neg hs]
    refine ⟨?_, fun heq => absurd heq hs, fun _ target => ?_⟩
    · rw [hrefused]
      exact ⟨nofun, fun hand => absurd hand.1 hs⟩
    · rw [hrefused]

/-- A list does what cancelling does, whose subscription ever it is given. -/
theorem heeds_list_iff (h : c.Accords) (l : ListId) (s : Subscription) :
    c.Heeds (.list l) s ↔ (s.target = .list l ∨ ¬Standing c.host.entries s) := by
  constructor
  · intro hheeds
    by_cases hstanding : Standing c.host.entries s
    · exact .inl (hheeds.answer.1 ((h.cancel_fst s).2 hstanding)).1
    · exact .inr hstanding
  · intro hcase
    have hboth : Standing c.host.entries s ↔ s.target = .list l ∧ Standing c.host.entries s :=
      ⟨fun hstanding => ⟨hcase.resolve_right (not_not_intro hstanding), hstanding⟩, And.right⟩
    refine ⟨(h.cancel_fst s).trans hboth, fun _ => rfl, fun hnot target => ?_⟩
    exact h.entries_cancel_of_not_standing (mt hboth.1 hnot) target

/-- All of this is in the ledger. -/
theorem Accords.minds (h : c.Accords) : c.MindsSubscriptions where
  distinct := h.nodup
  registered := h.observers
  cancelled := h.cancel_fst
  removes s := c.watch.entries_cancel s
  object := heeds_object h
  list := heeds_list_iff h
  calls react n := by rw [notify_eq_foldl, h.summons]

theorem Accords.strike {s : Subscription} {answer : Bool × Watch κ}
    (hanswer : answer.2.Accords (if answer.1 then c.host.entries ++ [.removed s] else c.host.entries)) :
    (Client.strike s (answer.1, { c with watch := answer.2 })).Accords := by
  unfold Client.strike
  cases hdone : answer.1 with
  | true =>
      rw [hdone] at hanswer
      exact hanswer
  | false =>
      rw [hdone] at hanswer
      exact hanswer

/-- Deeds keep the ledger. -/
theorem Accords.begin (h : c.Accords) (react : κ → Event → Script κ μ) (deed : Deed κ) :
    (deed.begin react c).1.Accords := by
  cases deed with
  | newObject | newList | write | patch | reconcile => exact h
  | observe target field callback => exact Watch.Accords.observe h target field callback
  | cancel s => exact Accords.strike (Watch.Accords.cancel h s)
  | unobserve target s => exact Accords.strike (Watch.Accords.unobserve h target s)
  | setList o field elementType keyed items =>
      simp only [Deed.begin]
      split <;> exact h

end Client

/-- One step of a run keeps the ledger. -/
theorem Moment.accords_next {m : Moment κ μ} (h : m.client.Accords) : m.next.client.Accords := by
  obtain ⟨c, agenda⟩ := m
  cases agenda with
  | nil => exact h
  | cons duty rest =>
      cases duty with
      | script p =>
          cases p with
          | done | remember | look => exact h
          | act deed react next => exact Client.Accords.begin h react deed
      | call | notice => exact h
      | store react o field slot =>
          simp only [Moment.next]
          split <;> exact h

theorem Script.accords_moment (plans : Plans) (memory : μ) (p : Script κ μ) (n : Nat) :
    (p.moment plans memory n).client.Accords := by
  induction n with
  | zero => exact Watch.Accords.empty
  | succ n ih =>
      rw [moment_succ]
      exact Moment.accords_next ih

/-- **Subscriptions are minded.** At every moment of every run, within callbacks too, the observers
are those of the ledger, and what is asked of subscriptions holds, but for lists that are given a
standing subscription to something else. And every run comes to its end. -/
theorem Script.minds_subscriptions (plans : Plans) (memory : μ) (p : Script κ μ) :
    (∃ n, p.moment plans memory n = ⟨p.run (.fresh plans memory), []⟩) ∧
      ∀ n, (p.moment plans memory n).client.MindsSubscriptions :=
  ⟨p.reaches_run plans memory, fun n => (p.accords_moment plans memory n).minds⟩

section Sample

/-- Makes an object and a list, and registers an observer of the object. -/
def strayScript : Script Unit Unit :=
  .act (.newObject "User") (fun _ _ => .done) (.act (.newList "User" true) (fun _ _ => .done)
    (.act (.observe (.object ⟨0⟩) none ()) (fun _ _ => .done) .done))

def strayClient : Watched Unit Unit := (strayScript.moment (samplePlans []) () 3).client

/-- A list that is asked to remove the observer of an object says that it did,
and the object has it no more. -/
theorem not_heeds_list :
    (strayClient.unobserve (.list ⟨0⟩) ⟨0, .object ⟨0⟩⟩).1 = true ∧
      (strayClient.watch.get (.object ⟨0⟩)).entries.length = 1 ∧
      ((strayClient.unobserve (.list ⟨0⟩) ⟨0, .object ⟨0⟩⟩).2.watch.get (.object ⟨0⟩)).entries.length = 0 ∧
      ¬strayClient.Heeds (.list ⟨0⟩) ⟨0, .object ⟨0⟩⟩ :=
  ⟨rfl, rfl, rfl, fun hheeds => absurd (hheeds.answer.1 rfl).1 (by decide)⟩

end Sample

end GraphClient.Live
