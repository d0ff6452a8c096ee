import GraphClient.Live.Client

/-! Programs that use a client. A program is a tree of calls: whatever happens during a call is answered
by callbacks, which are programs themselves and may call the client again, to any depth. A session keeps a
journal of what the callbacks were told and of the messages that the server sent. -/

namespace GraphClient.Live

/-- When a handler calls back. -/
inductive Role
  | data
  | error
  | completed
  deriving DecidableEq, Repr

/-- A callback, with what it was registered for. -/
inductive Callback (κ : Type)
  | observer (callback : κ)
  | handler (h : HandlerId) (role : Role) (callback : κ)
  deriving DecidableEq, Repr

namespace Callback

variable {κ : Type}

/-- Whether a callback belongs to a handler. -/
def isOf (h : HandlerId) : Callback κ → Bool
  | observer _ => false
  | handler k _ _ => k = h

/-- Whether a callback is for the end of a handler. -/
def endsOf (h : HandlerId) : Callback κ → Bool
  | observer _ => false
  | handler k role _ => k = h && role ≠ .data

end Callback

/-- What a callback was told. -/
structure Told (κ : Type) where
  callback : Callback κ
  event : Event

/-- A message that came from the server. -/
structure Taken where
  message : ServerMessage
  /-- How many messages had been handed to the connection before. -/
  sent : Nat

/-- What a session keeps in mind. -/
structure Journal (κ μ : Type) where
  told : List (Told κ)
  taken : List Taken
  /-- What the program remembers. -/
  memory : μ

/-- A client that is used by a program. -/
abbrev Session (κ μ : Type) := Client (Callback κ) (Journal κ μ)

namespace Client

variable {κ μ : Type}

/-- A session in which nothing has happened yet. -/
def begin (plans : Plans) (memory : μ) : Session κ μ := create plans ⟨[], [], memory⟩

/-- Puts down what a callback is told. -/
def jot (k : Callback κ) (e : Event) (c : Session κ μ) : Session κ μ :=
  { c with host := { c.host with told := c.host.told ++ [⟨k, e⟩] } }

/-- Puts down a message that comes from the server. -/
def take (message : ServerMessage) (c : Session κ μ) : Session κ μ :=
  { c with host := { c.host with taken := c.host.taken ++ [⟨message, c.sends.length⟩] } }

/-- What the callbacks of a handler were told. -/
def heard (h : HandlerId) (c : Session κ μ) : List (Told κ) := c.host.told.filter (·.callback.isOf h)

/-- What the callbacks for the end of a handler were told. -/
def heardEnd (h : HandlerId) (c : Session κ μ) : List (Told κ) := c.host.told.filter (·.callback.endsOf h)

/-- The messages that were handed over for an operation. -/
def sendsFor (id : String) (c : Session κ μ) : List Send := c.sends.filter fun s => s.message.id? = some id

end Client

/-- What a program may ask of a client. -/
inductive Call (κ : Type)
  | create (request : Request) (onData onError onCompleted : List κ)
  /-- Adds a callback to a handler. -/
  | listen (h : HandlerId) (role : Role) (callback : κ)
  | observe (target : Target) (field : Option String) (callback : κ)
  | cancel (s : Subscription)
  /-- Lets the connection take messages from here on, or refuse them. -/
  | connect (isOpen : Bool)
  | execute (h : HandlerId)
  | dispatch (message : ServerMessage)
  | dispose (h : HandlerId)

/-- A program that uses a client. -/
inductive Program (κ μ : Type)
  | done
  | remember (memory : Session κ μ → μ) (next : Program κ μ)
  | look (next : Session κ μ → Program κ μ)
  /-- Makes a call; `react` is what each callback does when it is told an event during it. -/
  | call (made : Call κ) (react : Callback κ → Event → Program κ μ) (next : Program κ μ)

variable {κ μ : Type}

/-- A handler that calls back under its own name. -/
def Handler.named (h : HandlerId) (request : Request) (onData onError onCompleted : List κ) :
    Handler (Callback κ) :=
  .create request (onData.map (.handler h .data)) (onError.map (.handler h .error))
    (onCompleted.map (.handler h .completed))

/-- A handler with one more callback. -/
def Handler.listen (role : Role) (callback : κ) (s : Handler κ) : Handler κ :=
  match role with
  | .data => { s with onData := s.onData ++ [callback] }
  | .error => { s with onError := s.onError ++ [callback] }
  | .completed => { s with onCompleted := s.onCompleted ++ [callback] }

namespace Call

/-- Makes a call. -/
def perform (react : Reaction (Callback κ) (Journal κ μ)) (c : Session κ μ) : Call κ → Session κ μ
  | create request onData onError onCompleted =>
      (c.newHandler (.named ⟨c.handlers.size⟩ request onData onError onCompleted)).2
  | listen h role callback => c.modifyHandler h (.listen role (.handler h role callback))
  | observe target field callback => (c.observe target field (.observer callback)).2
  | cancel s => (c.cancel s).2
  | connect isOpen => { c with isOpen := isOpen }
  | execute h => (c.execute react h).2
  | dispatch message => (c.take message).dispatch react message
  | dispose h => c.dispose h

end Call

namespace Program

/-- Runs a program. What a callback is told is put down before it does anything. -/
def run : Program κ μ → Session κ μ → Session κ μ
  | done, c => c
  | remember memory next, c => next.run { c with host := { c.host with memory := memory c } }
  | look next, c => (next c).run c
  | call made react next, c => next.run (made.perform (fun k e c => (react k e).run (c.jot k e)) c)

/-- A program that makes a call and leaves its callbacks to do nothing. -/
def just (made : Call κ) (next : Program κ μ) : Program κ μ := call made (fun _ _ => done) next

end Program

/-- The operation that a message ends. -/
def ServerMessage.ends? : ServerMessage → Option String
  | error id _ | complete id => some id
  | connectionAck _ | next _ _ | ping _ | pong _ => none

/-- That a call takes only messages of some kind from the server. -/
def Call.Takes (allowed : ServerMessage → Prop) : Call κ → Prop
  | dispatch message => allowed message
  | create .. | listen .. | observe .. | cancel _ | connect _ | execute _ | dispose _ => True

/-- That a program and all its callbacks take only messages of some kind from the server. -/
def Program.Takes (allowed : ServerMessage → Prop) : Program κ μ → Prop
  | done => True
  | remember _ next => next.Takes allowed
  | look next => ∀ c, (next c).Takes allowed
  | call made react next => made.Takes allowed ∧ (∀ k e, (react k e).Takes allowed) ∧ next.Takes allowed

theorem Call.Takes.mono {allowed more : ServerMessage → Prop} {made : Call κ} (ht : made.Takes allowed)
    (hmore : ∀ m, allowed m → more m) : made.Takes more := by
  cases made with
  | dispatch message => exact hmore message ht
  | _ => trivial

theorem Program.Takes.mono {allowed more : ServerMessage → Prop} {p : Program κ μ} (ht : p.Takes allowed)
    (hmore : ∀ m, allowed m → more m) : p.Takes more := by
  induction p with
  | done => trivial
  | remember _ _ ih => exact ih ht
  | look _ ih => exact fun c => ih c (ht c)
  | call made react next ihreact ih =>
      exact ⟨ht.1.mono hmore, fun k e => ihreact k e (ht.2.1 k e), ih ht.2.2⟩

/-- Every program takes messages of some kind or other. -/
theorem Program.takes_all (p : Program κ μ) : p.Takes fun _ => True := by
  induction p with
  | done => trivial
  | remember _ _ ih => exact ih
  | look _ ih => exact ih
  | call made react next ihreact ih => exact ⟨by cases made <;> trivial, ihreact, ih⟩

end GraphClient.Live
