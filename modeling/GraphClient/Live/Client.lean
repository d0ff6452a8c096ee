import GraphClient.Live.Handler
import GraphClient.Live.Watch

/-! The client: plans of the schema, objects and lists with their observers, the handlers of operations,
and a connection. Operations that still receive messages are routed by their ids; the server is told
exactly once about each operation that the client gives up.

Callbacks are values of a type `κ`, and `react` says what each of them does when it is told an event: it
may do anything to the client, at any time. A state of type `σ` is kept along for them. -/

namespace GraphClient.Live

/-- What a callback is told. -/
inductive Event
  | field (object : ObjectId) (name : String)
  | list (list : ListId) (change : ListChange ObjectId)
  /-- Data was written into a root object, and these fields of it changed. -/
  | data (root : ObjectId) (changes : List String)
  | error (error : HandlerError)
  | completed

/-- A message that was handed to the connection. -/
structure Send where
  message : ClientMessage
  /-- Whether the connection took it. -/
  delivered : Bool

/-- A client. -/
structure Client (κ σ : Type) where
  plans : Plans
  heap : Heap
  watch : Watch κ
  handlers : Arena (Handler κ)
  /-- The handlers of the operations that still receive messages. -/
  routes : Table HandlerId
  /-- The number of the next operation. -/
  nextOperation : Nat
  /-- Whether the connection takes messages. -/
  isOpen : Bool
  /-- All messages, in order. -/
  sends : List Send
  host : σ

/-- What a callback does when it is told an event. -/
abbrev Reaction (κ σ : Type) := κ → Event → Client κ σ → Client κ σ

namespace Client

variable {κ σ : Type}

/-- A client that has done nothing yet. -/
def create (plans : Plans) (host : σ) : Client κ σ :=
  ⟨plans, .empty, .empty, .empty, .empty, 1, true, [], host⟩

/-- The number of operations that still receive messages. -/
def activeOperations (c : Client κ σ) : Nat := c.routes.entries.length

/-- Tells several callbacks an event. -/
def tell (react : Reaction κ σ) (callbacks : List κ) (event : Event) (c : Client κ σ) : Client κ σ :=
  callbacks.foldl (fun c k => react k event c) c

/-- Tells the observers about a noted change: those that are registered now. -/
def notify (react : Reaction κ σ) (n : Notification) (c : Client κ σ) : Client κ σ :=
  match n with
  | .field o name => tell react ((c.watch.get (.object o)).callbacksFor name) (.field o name) c
  | .list l changes =>
      let callbacks := (c.watch.get (.list l)).callbacks
      changes.foldl (fun c change => tell react callbacks (.list l change) c) c

/-- Tells the observers about all noted changes, in their order. -/
def notifyAll (react : Reaction κ σ) (pending : List Notification) (c : Client κ σ) : Client κ σ :=
  pending.foldl (fun c n => notify react n c) c

def newObject (typeName : String) (c : Client κ σ) : ObjectId × Client κ σ :=
  let (o, h) := c.heap.newObject typeName
  (o, { c with heap := h })

def newList (elementType : String) (keyed : Bool) (c : Client κ σ) : ListId × Client κ σ :=
  let (l, h) := c.heap.newList elementType keyed
  (l, { c with heap := h })

/-- Takes a step on the objects and then tells all changes, also those before an error. -/
def run {α : Type} (react : Reaction κ σ) (step : Patching α) (c : Client κ σ) :
    Except PatchError α × Client κ σ :=
  let (result, progress) := StateT.run (ExceptT.run step) ⟨c.heap, []⟩
  (result, notifyAll react progress.pending { c with heap := progress.heap })

/-- Writes data into an object and gives the names of the fields that changed. -/
def patch (react : Reaction κ σ) (o : ObjectId) (data : Json) (c : Client κ σ) :
    Except PatchError (List String) × Client κ σ :=
  c.run react (Live.patch c.plans data o)

/-- Makes a list what data says. -/
def reconcile (react : Reaction κ σ) (l : ListId) (data : List Json) (c : Client κ σ) :
    Except PatchError Reconciliation × Client κ σ :=
  c.run react (Live.reconcile c.plans l data)

/-- Writes a field; tells whether it changed. -/
def setSlot (react : Reaction κ σ) (o : ObjectId) (field : String) (slot : Slot) (c : Client κ σ) :
    Bool × Client κ σ :=
  if c.heap.differs o field slot then
    (true, notify react (.field o field) { c with heap := c.heap.write o field slot })
  else (false, c)

/-- The slot for a leaf that may be missing; a null value is the same as none. -/
def optionalSlot (value : Option ScalarValue) : Slot :=
  match value with
  | some v => if v.isNull then .null else .scalar v
  | none => .null

/-- The slot for a list of leaves that may be missing, as may its items. -/
def scalarsSlot (values : Option (List (Option ScalarValue))) : Slot :=
  match values with
  | some vs => .scalars (vs.map (·.getD .null))
  | none => .null

/-- Puts objects into the list of a field. A list that is there stays the same one and the field does
not change; otherwise the field gets a new list. Tells whether the field changed. -/
def setObjectList (react : Reaction κ σ) (o : ObjectId) (field elementType : String) (keyed : Bool)
    (items : List ObjectId) (c : Client κ σ) : Bool × Client κ σ :=
  match (c.heap.object o).list? field with
  | some l =>
      let (reordering, h) := c.heap.setItems l items
      (false, notify react (.list l reordering.changes) { c with heap := h })
  | none =>
      let (l, c) := c.newList elementType keyed
      let (reordering, h) := c.heap.setItems l items
      setSlot react o field (.list l) (notify react (.list l reordering.changes) { c with heap := h })

def observe (target : Target) (field : Option String) (callback : κ) (c : Client κ σ) :
    Subscription × Client κ σ :=
  let (s, w) := c.watch.observe target field callback
  (s, { c with watch := w })

def cancel (s : Subscription) (c : Client κ σ) : Bool × Client κ σ :=
  let (done, w) := c.watch.cancel s
  (done, { c with watch := w })

def unobserve (target : Target) (s : Subscription) (c : Client κ σ) : Bool × Client κ σ :=
  let (done, w) := c.watch.unobserve target s
  (done, { c with watch := w })

def handler (c : Client κ σ) (h : HandlerId) : Handler κ := c.handlers.get h.number

def modifyHandler (h : HandlerId) (change : Handler κ → Handler κ) (c : Client κ σ) : Client κ σ :=
  { c with handlers := c.handlers.modify h.number change }

def newHandler (handler : Handler κ) (c : Client κ σ) : HandlerId × Client κ σ :=
  (⟨c.handlers.size⟩, { c with handlers := c.handlers.push handler })

/-- Ends an operation with an error, if it has not ended yet. -/
def fail (react : Reaction κ σ) (h : HandlerId) (error : HandlerError) (c : Client κ σ) : Client κ σ :=
  if (c.handler h).state.isTerminal then c
  else
    let c := c.modifyHandler h fun s => { s with state := .errored, error := some error }
    tell react (c.handler h).onError (.error error) c

/-- Ends an operation without one, if it has not ended yet. -/
def complete (react : Reaction κ σ) (h : HandlerId) (c : Client κ σ) : Client κ σ :=
  if (c.handler h).state.isTerminal then c
  else
    let c := c.modifyHandler h fun s => { s with state := .completed }
    tell react (c.handler h).onCompleted .completed c

/-- The root object of a handler, a new one if it has none yet. -/
def rootOf (h : HandlerId) (c : Client κ σ) : ObjectId × Client κ σ :=
  match (c.handler h).root with
  | some o => (o, c)
  | none =>
      let (o, c) := c.newObject (c.handler h).request.rootType
      (o, c.modifyHandler h fun s => { s with root := some o })

/-- Reports the errors of a response. -/
def failWithErrors (react : Reaction κ σ) (h : HandlerId) (errors : Option Json) (c : Client κ σ) :
    Client κ σ :=
  match errors with
  | some payload => c.fail react h (.server payload)
  | none => c

/-- Writes the data of a payload into the root of a handler and reports the errors of the payload. Only
a subscribed handler takes payloads. -/
def receive (react : Reaction κ σ) (h : HandlerId) (payload : Json) (c : Client κ σ) : Client κ σ :=
  if (c.handler h).state = .subscribed then
    let (root, c) := c.rootOf h
    let response := Response.ofPayload payload
    match response.data with
    | none => c.failWithErrors react h response.errors
    | some data =>
        match c.patch react root data with
        | (.error e, c) => c.fail react h (.patch e)
        | (.ok changes, c) =>
            (tell react (c.handler h).onData (.data root changes) c).failWithErrors react h response.errors
  else c

/-- Hands a message to the connection; tells whether it took it. -/
def send (message : ClientMessage) (c : Client κ σ) : Bool × Client κ σ :=
  (c.isOpen, { c with sends := c.sends ++ [⟨message, c.isOpen⟩] })

/-- From here on the connection takes no messages. -/
def close (c : Client κ σ) : Client κ σ := { c with isOpen := false }

/-- Opens the conversation. -/
def start (c : Client κ σ) : Bool × Client κ σ := c.send (.connectionInit none)

def unroute (id : String) (c : Client κ σ) : Client κ σ := { c with routes := c.routes.erase id }

/-- Gives up an operation that is still routed, and tells the server. -/
def giveUp (id : String) (c : Client κ σ) : Client κ σ :=
  if c.routes.contains id then ((c.unroute id).send (.complete id)).2 else c

/-- Subscribes a handler under a new operation id and sends its request. -/
def subscribe (react : Reaction κ σ) (h : HandlerId) (c : Client κ σ) : Option String × Client κ σ :=
  let id := toString c.nextOperation
  let c := { c with nextOperation := c.nextOperation + 1 }
  let c := c.modifyHandler h fun s => { s with id := some id, state := .subscribed }
  let c := { c with routes := c.routes.insert id h }
  match c.send (.subscribe id (c.handler h).request.payload) with
  | (true, c) => (some id, c)
  | (false, c) => (none, (c.unroute id).fail react h .closed)

/-- Executes a handler and gives its operation id. One that is subscribed keeps its id; one that has
ended is left alone. -/
def execute (react : Reaction κ σ) (h : HandlerId) (c : Client κ σ) : Option String × Client κ σ :=
  let s := c.handler h
  if s.state.isTerminal then (none, c)
  else
    match s.id.filter c.routes.contains with
    | some id => (some id, c)
    | none => c.subscribe react h

/-- Takes a message from the server. Messages for operations that are not routed are dropped. -/
def dispatch (react : Reaction κ σ) (message : ServerMessage) (c : Client κ σ) : Client κ σ :=
  match message with
  | .next id payload =>
      match c.routes.get? id with
      | some h =>
          let c := c.receive react h payload
          if (c.handler h).state.isTerminal then c.giveUp id else c
      | none => c
  | .error id payload =>
      match c.routes.get? id with
      | some h => (c.unroute id).fail react h (.server payload)
      | none => c
  | .complete id =>
      match c.routes.get? id with
      | some h => (c.unroute id).complete react h
      | none => c
  | .ping payload => (c.send (.pong payload)).2
  | .connectionAck _ | .pong _ => c

/-- Takes messages one after the other. -/
def dispatchAll (react : Reaction κ σ) (messages : List ServerMessage) (c : Client κ σ) : Client κ σ :=
  messages.foldl (fun c m => c.dispatch react m) c

/-- Stops a handler. Data that it has received stays in its root. -/
def dispose (h : HandlerId) (c : Client κ σ) : Client κ σ :=
  let c := match (c.handler h).id with
    | some id => c.giveUp id
    | none => c
  c.modifyHandler h fun s => { s with state := .disposed }

end Client

end GraphClient.Live
