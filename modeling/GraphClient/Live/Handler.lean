import GraphClient.Live.Message
import GraphClient.Live.Patch

/-! Handlers of operations. A handler is idle until it is executed, then subscribed, and ends once:
completed by the server, failed, or disposed of by the program, which is always possible. Data that
arrives is written into the handler's root object. -/

namespace GraphClient.Live

/-- The number of a handler. -/
structure HandlerId where
  number : Nat
  deriving DecidableEq, Repr, Inhabited

/-- What a handler sends. -/
structure Request where
  name : String
  document : String
  /-- The type of the object that data is written into. -/
  rootType : String
  /-- By name, in the order of names. -/
  variableValues : List (String × Json)
  deriving Repr, Inhabited

def Request.payload (r : Request) : OperationPayload := ⟨r.document, some r.name, r.variableValues⟩

/-- How far an operation has come. -/
inductive HandlerState
  | idle
  | subscribed
  | completed
  | errored
  | disposed
  deriving DecidableEq, Repr, Inhabited

namespace HandlerState

/-- Whether nothing more arrives. -/
def isTerminal : HandlerState → Bool
  | completed | errored | disposed => true
  | idle | subscribed => false

def label : HandlerState → String
  | idle => "Idle"
  | subscribed => "Subscribed"
  | completed => "Completed"
  | errored => "Errored"
  | disposed => "Disposed"

end HandlerState

/-- Why an operation failed. -/
inductive HandlerError
  | server (payload : Json)
  | patch (error : PatchError)
  /-- The message could not be sent. -/
  | closed
  deriving Repr

/-- The message when nothing can be sent any more. -/
def closedMessage : String := "transport is closed"

def HandlerError.message : HandlerError → String
  | server payload => "server error: " ++ payload.text
  | patch error => error.message
  | closed => closedMessage

/-- A handler, with the callbacks for what happens to it. -/
structure Handler (κ : Type) where
  request : Request
  state : HandlerState
  /-- The operation, once it was executed. -/
  id : Option String
  /-- The object that data is written into, once some has arrived. -/
  root : Option ObjectId
  error : Option HandlerError
  onData : List κ
  onError : List κ
  onCompleted : List κ

namespace Handler

variable {κ : Type}

/-- A handler that was not executed yet. -/
def create (request : Request) (onData onError onCompleted : List κ) : Handler κ :=
  ⟨request, .idle, none, none, none, onData, onError, onCompleted⟩

instance : Inhabited (Handler κ) := ⟨create default [] [] []⟩

end Handler

/-- What a payload carries: the data to write, and the errors to report. -/
structure Response where
  data : Option Json
  errors : Option Json

/-- Reads a payload, which is the data itself unless it has a member `data` or `errors`. Null is no
data, and only a list with something in it reports errors. -/
def Response.ofPayload (payload : Json) : Response :=
  let data := payload.get? "data"
  let errors := payload.get? "errors"
  let parts := if data.isSome || errors.isSome then (data, errors) else (some payload, none)
  ⟨parts.1.filter (!·.isNull), parts.2.filter fun e => (e.array?.getD []) matches _ :: _⟩

end GraphClient.Live
