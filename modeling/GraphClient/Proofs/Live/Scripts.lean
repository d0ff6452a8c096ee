import GraphClient.Live.Client
import Mathlib.Logic.Function.Iterate

/-! Scripts that use objects and lists. A script is a tree of deeds: it makes objects and lists,
writes them, by hand or with data, and registers and removes observers. An observer that is called in
the course of a deed answers with a script of its own, to any depth, and all that is registered or
removed is put down in a ledger.

A script also runs step by step. What is left to do is kept in an agenda, so that every moment of a
run can be spoken of, also those within a callback (`Moment.next`). Step by step a script comes to the
same end as at once (`Script.reaches_run`). -/

namespace GraphClient.Live

variable {κ μ σ : Type}

/-- Something that was done about an observer. -/
inductive Registration (κ : Type)
  | observed (s : Subscription) (field : Option String) (callback : κ)
  /-- The observer was there and is so no more. -/
  | removed (s : Subscription)

/-- All that was done about observers, and what a script remembers. -/
structure Ledger (κ μ : Type) where
  entries : List (Registration κ)
  memory : μ

/-- A client that is used by scripts. -/
abbrev Watched (κ μ : Type) := Client κ (Ledger κ μ)

namespace Client

/-- A client with which nothing was done yet. -/
def fresh (plans : Plans) (memory : μ) : Watched κ μ := create plans ⟨[], memory⟩

def enter (e : Registration κ) (c : Watched κ μ) : Watched κ μ :=
  { c with host := { c.host with entries := c.host.entries ++ [e] } }

/-- Puts down that an observer was removed, if it was. -/
def strike (s : Subscription) (answer : Bool × Watched κ μ) : Watched κ μ :=
  if answer.1 then answer.2.enter (.removed s) else answer.2

end Client

/-- What a script may do. -/
inductive Deed (κ : Type)
  | newObject (typeName : String)
  | newList (elementType : String) (keyed : Bool)
  | observe (target : Target) (field : Option String) (callback : κ)
  | cancel (s : Subscription)
  | unobserve (target : Target) (s : Subscription)
  | write (o : ObjectId) (field : String) (slot : Slot)
  | setList (o : ObjectId) (field elementType : String) (keyed : Bool) (items : List ObjectId)
  | patch (o : ObjectId) (data : Json)
  | reconcile (l : ListId) (items : List Json)

/-- Does a deed. -/
def Deed.perform (react : Reaction κ (Ledger κ μ)) (c : Watched κ μ) : Deed κ → Watched κ μ
  | newObject typeName => (c.newObject typeName).2
  | newList elementType keyed => (c.newList elementType keyed).2
  | observe target field callback =>
      let (s, c) := c.observe target field callback
      c.enter (.observed s field callback)
  | cancel s => Client.strike s (c.cancel s)
  | unobserve target s => Client.strike s (c.unobserve target s)
  | write o field slot => (c.setSlot react o field slot).2
  | setList o field elementType keyed items => (c.setObjectList react o field elementType keyed items).2
  | patch o data => (c.patch react o data).2
  | reconcile l items => (c.reconcile react l items).2

/-- A script. -/
inductive Script (κ μ : Type)
  | done
  | remember (memory : Watched κ μ → μ) (next : Script κ μ)
  | look (next : Watched κ μ → Script κ μ)
  /-- Does a deed; `react` is what each observer does when it is told an event in the course of it. -/
  | act (deed : Deed κ) (react : κ → Event → Script κ μ) (next : Script κ μ)

/-- Runs a script at once. -/
def Script.run : Script κ μ → Watched κ μ → Watched κ μ
  | done, c => c
  | remember memory next, c => next.run { c with host := { c.host with memory := memory c } }
  | look next, c => (next c).run c
  | act deed react next, c => next.run (deed.perform (fun k e c => (react k e).run c) c)

/-- Which observers are called for a notification, and what they are told. -/
def Client.summons (c : Client κ σ) : Notification → List (κ × Event)
  | .field o name => ((c.watch.get (.object o)).callbacksFor name).map (·, .field o name)
  | .list l changes =>
      changes.flatMap fun change => (c.watch.get (.list l)).callbacks.map (·, .list l change)

theorem Client.tell_eq_foldl (react : Reaction κ σ) (callbacks : List κ) (e : Event) (c : Client κ σ) :
    tell react callbacks e c = (callbacks.map (·, e)).foldl (fun c call => react call.1 call.2 c) c := by
  rw [List.foldl_map]
  rfl

/-- A notification calls those who are registered when it begins, one after the other. -/
theorem Client.notify_eq_foldl (react : Reaction κ σ) (n : Notification) (c : Client κ σ) :
    notify react n c = (c.summons n).foldl (fun c call => react call.1 call.2 c) c := by
  cases n with
  | field o name => exact tell_eq_foldl react _ _ c
  | list l changes =>
      simp only [notify, summons, List.foldl_flatMap]
      congr 1
      funext c change
      exact tell_eq_foldl react _ _ c

/-- Something that is left to do. -/
inductive Duty (κ μ : Type)
  | script (s : Script κ μ)
  | call (react : κ → Event → Script κ μ) (callback : κ) (event : Event)
  | notice (react : κ → Event → Script κ μ) (n : Notification)
  | store (react : κ → Event → Script κ μ) (o : ObjectId) (field : String) (slot : Slot)

/-- A client in the course of a run, and what is left to do, what comes first in front. -/
structure Moment (κ μ : Type) where
  client : Watched κ μ
  agenda : List (Duty κ μ)

/-- The outcome of a step on the objects, and the notifications that come of it. -/
def Client.change {α : Type} (react : κ → Event → Script κ μ) (step : Patching α) (c : Watched κ μ) :
    Watched κ μ × List (Duty κ μ) :=
  let progress := (StateT.run (ExceptT.run step) ⟨c.heap, []⟩).2
  ({ c with heap := progress.heap }, progress.pending.map (.notice react))

/-- Gives a list new contents, and notifies of that. -/
def Client.fill (react : κ → Event → Script κ μ) (l : ListId) (items : List ObjectId) (c : Watched κ μ) :
    Watched κ μ × List (Duty κ μ) :=
  ({ c with heap := (c.heap.setItems l items).2 },
    [.notice react (.list l (c.heap.setItems l items).1.changes)])

/-- Begins a deed: what it does at once, and what it leaves to do. -/
def Deed.begin (react : κ → Event → Script κ μ) (c : Watched κ μ) : Deed κ → Watched κ μ × List (Duty κ μ)
  | newObject typeName => ((c.newObject typeName).2, [])
  | newList elementType keyed => ((c.newList elementType keyed).2, [])
  | observe target field callback =>
      let (s, c) := c.observe target field callback
      (c.enter (.observed s field callback), [])
  | cancel s => (Client.strike s (c.cancel s), [])
  | unobserve target s => (Client.strike s (c.unobserve target s), [])
  | write o field slot => (c, [.store react o field slot])
  | setList o field elementType keyed items =>
      match (c.heap.object o).list? field with
      | some l => c.fill react l items
      | none =>
          let (l, c) := c.newList elementType keyed
          let (c, duties) := c.fill react l items
          (c, duties ++ [.store react o field (.list l)])
  | patch o data => c.change react (Live.patch c.plans data o)
  | reconcile l items => c.change react (Live.reconcile c.plans l items)

/-- The next moment. At the end of a run there is none any more. -/
def Moment.next : Moment κ μ → Moment κ μ
  | ⟨c, []⟩ => ⟨c, []⟩
  | ⟨c, .script .done :: rest⟩ => ⟨c, rest⟩
  | ⟨c, .script (.remember memory next) :: rest⟩ =>
      ⟨{ c with host := { c.host with memory := memory c } }, .script next :: rest⟩
  | ⟨c, .script (.look next) :: rest⟩ => ⟨c, .script (next c) :: rest⟩
  | ⟨c, .script (.act deed react next) :: rest⟩ =>
      let (c, duties) := deed.begin react c
      ⟨c, duties ++ .script next :: rest⟩
  | ⟨c, .call react k e :: rest⟩ => ⟨c, .script (react k e) :: rest⟩
  | ⟨c, .notice react n :: rest⟩ => ⟨c, (c.summons n).map (fun call => .call react call.1 call.2) ++ rest⟩
  | ⟨c, .store react o field slot :: rest⟩ =>
      if c.heap.differs o field slot then
        ⟨{ c with heap := c.heap.write o field slot }, .notice react (.field o field) :: rest⟩
      else ⟨c, rest⟩

/-- The first moment of a run. -/
def Script.start (plans : Plans) (memory : μ) (p : Script κ μ) : Moment κ μ :=
  ⟨.fresh plans memory, [.script p]⟩

/-- The moments of a run, by the number of steps before them. -/
def Script.moment (plans : Plans) (memory : μ) (p : Script κ μ) (n : Nat) : Moment κ μ :=
  Moment.next^[n] (p.start plans memory)

theorem Script.moment_succ (plans : Plans) (memory : μ) (p : Script κ μ) (n : Nat) :
    p.moment plans memory (n + 1) = (p.moment plans memory n).next :=
  Function.iterate_succ_apply' Moment.next n _

/-- What the callbacks of a deed do, at once. -/
def answering (react : κ → Event → Script κ μ) : Reaction κ (Ledger κ μ) := fun k e c => (react k e).run c

/-- Does a duty at once. -/
def Duty.run : Duty κ μ → Watched κ μ → Watched κ μ
  | script s, c => s.run c
  | call react k e, c => (react k e).run c
  | notice react n, c => c.notify (answering react) n
  | store react o field slot, c => (c.setSlot (answering react) o field slot).2

/-- A deed at once is its beginning and then all that it leaves to do. -/
theorem Deed.perform_eq_begin (react : κ → Event → Script κ μ) (c : Watched κ μ) (deed : Deed κ) :
    deed.perform (answering react) c = (deed.begin react c).2.foldl (fun c t => t.run c)
      (deed.begin react c).1 := by
  have hchange {α : Type} (step : Patching α) : (c.run (answering react) step).2 =
      (c.change react step).2.foldl (fun c t => t.run c) (c.change react step).1 := by
    simp only [Client.run, Client.change, Client.notifyAll, List.foldl_map]
    rfl
  cases deed with
  | setList o field elementType keyed items =>
      simp only [perform, begin, Client.setObjectList]
      cases (c.heap.object o).list? field <;> rfl
  | patch o data => exact hchange _
  | reconcile l items => exact hchange _
  | _ => rfl

/-- That a moment comes after another one, or is the same. -/
def Moment.Reaches (m m' : Moment κ μ) : Prop := ∃ n, next^[n] m = m'

namespace Moment.Reaches

variable {m m' m'' : Moment κ μ}

theorem refl (m : Moment κ μ) : m.Reaches m := ⟨0, rfl⟩

theorem step (h : m.next.Reaches m') : m.Reaches m' := by
  obtain ⟨n, hn⟩ := h
  exact ⟨n + 1, hn⟩

theorem trans (h : m.Reaches m') (h' : m'.Reaches m'') : m.Reaches m'' := by
  obtain ⟨n, rfl⟩ := h
  obtain ⟨n', rfl⟩ := h'
  exact ⟨n' + n, Function.iterate_add_apply next n' n m⟩

end Moment.Reaches

/-- That step by step a duty comes to the same end as at once, whatever is left to do behind it. -/
def Duty.Settles (t : Duty κ μ) : Prop :=
  ∀ (c : Watched κ μ) (rest : List (Duty κ μ)), Moment.Reaches ⟨c, t :: rest⟩ ⟨t.run c, rest⟩

theorem Moment.reaches_of_settles {duties : List (Duty κ μ)}
    (hduties : ∀ t ∈ duties, t.Settles) (c : Watched κ μ)
    (rest : List (Duty κ μ)) : Reaches ⟨c, duties ++ rest⟩ ⟨duties.foldl (fun c t => t.run c) c, rest⟩ := by
  induction duties generalizing c with
  | nil => exact .refl _
  | cons t duties ih =>
      obtain ⟨ht, hrest⟩ := List.forall_mem_cons.1 hduties
      exact (ht c _).trans (ih hrest (t.run c))

namespace Duty

section

variable {react : κ → Event → Script κ μ} (hreact : ∀ k e, (script (react k e)).Settles)
include hreact

theorem settles_call (k : κ) (e : Event) : (call react k e).Settles := fun c rest => .step (hreact k e c rest)

theorem settles_notice (n : Notification) : (notice react n).Settles := by
  intro c rest
  have hcalls : ∀ t ∈ (c.summons n).map fun call => Duty.call react call.1 call.2, t.Settles := by
    intro t ht
    obtain ⟨call, -, rfl⟩ := List.mem_map.1 ht
    exact settles_call hreact call.1 call.2
  have hreaches := Moment.reaches_of_settles hcalls c rest
  rw [List.foldl_map] at hreaches
  change Moment.Reaches _ ⟨c.notify (answering react) n, rest⟩
  rw [Client.notify_eq_foldl]
  exact .step hreaches

theorem settles_store (o : ObjectId) (field : String) (slot : Slot) : (store react o field slot).Settles := by
  intro c rest
  apply Moment.Reaches.step
  simp only [Moment.next, Duty.run, Client.setSlot]
  split
  · exact settles_notice hreact (.field o field) _ rest
  · exact .refl _

theorem settles_begin (c : Watched κ μ) (deed : Deed κ) : ∀ t ∈ (deed.begin react c).2, t.Settles := by
  have hfill (l : ListId) (items : List ObjectId) (c : Watched κ μ) :
      ∀ t ∈ (c.fill react l items).2, t.Settles :=
    fun t ht => List.mem_singleton.1 ht ▸ settles_notice hreact _
  have hchange {α : Type} (step : Patching α) : ∀ t ∈ (c.change react step).2, t.Settles := by
    intro t ht
    obtain ⟨n, -, rfl⟩ := List.mem_map.1 ht
    exact settles_notice hreact n
  intro t ht
  cases deed with
  | newObject | newList | observe | cancel | unobserve => cases ht
  | write o field slot => exact List.mem_singleton.1 ht ▸ settles_store hreact o field slot
  | setList o field elementType keyed items =>
      simp only [Deed.begin] at ht
      split at ht
      · exact hfill _ _ _ t ht
      · rcases List.mem_append.1 ht with ht | ht
        · exact hfill _ _ _ t ht
        · exact List.mem_singleton.1 ht ▸ settles_store hreact o field _
  | patch => exact hchange _ t ht
  | reconcile => exact hchange _ t ht

end

/-- Scripts settle, for their callbacks do. -/
theorem settles_script (p : Script κ μ) : (script p).Settles := by
  -- what a callback runs is a part of the deed, so that the induction reaches callbacks of any depth
  induction p with
  | done => exact fun c rest => .step (.refl _)
  | remember memory next ih => exact fun c rest => .step (ih _ rest)
  | look next ih => exact fun c rest => .step (ih c c rest)
  | act deed react next ihreact ih =>
      intro c rest
      apply Moment.Reaches.step
      have hdeed := Moment.reaches_of_settles (settles_begin ihreact c deed) (deed.begin react c).1
        (script next :: rest)
      rw [← Deed.perform_eq_begin] at hdeed
      exact hdeed.trans (ih _ rest)

end Duty

/-- A run comes to its end, and that is what the script does at once. -/
theorem Script.reaches_run (plans : Plans) (memory : μ) (p : Script κ μ) :
    ∃ n, p.moment plans memory n = ⟨p.run (.fresh plans memory), []⟩ := Duty.settles_script p _ []

end GraphClient.Live
