import GraphClient.Json.Record
import GraphClient.Json.Writer

/-! The messages between client and server: JSON objects whose member `type` says what they are.
Members that a message does not have mean nothing, and a payload that is missing or null is the same as
none. A message may also be written as an array, its type first. -/

namespace GraphClient.Live

/-- What is asked for by an operation. -/
structure OperationPayload where
  query : String
  operationName : Option String
  /-- By name, in the order of names. -/
  variableValues : List (String × Json)
  deriving Repr

/-- A message to the server. -/
inductive ClientMessage
  | connectionInit (payload : Option Json)
  | subscribe (id : String) (payload : OperationPayload)
  | complete (id : String)
  | pong (payload : Option Json)
  deriving Repr

/-- A message from the server. -/
inductive ServerMessage
  | connectionAck (payload : Option Json)
  | next (id : String) (payload : Json)
  | error (id : String) (payload : Json)
  | complete (id : String)
  | ping (payload : Option Json)
  | pong (payload : Option Json)
  deriving Repr

/-- A message with some members behind its type. -/
def taggedMessage (type : String) (members : List (String × Json)) : Json :=
  .object (("type", .string type) :: members)

/-- The member for a payload that may be missing. -/
def payloadMember : Option Json → List (String × Json)
  | some payload => [("payload", payload)]
  | none => []

def OperationPayload.toJson (p : OperationPayload) : Json :=
  .object ([("query", .string p.query)] ++
    (match p.operationName with
      | some name => [("operationName", .string name)]
      | none => []) ++
    if p.variableValues.isEmpty then [] else [("variables", .object p.variableValues)])

def ClientMessage.toJson : ClientMessage → Json
  | connectionInit payload => taggedMessage "connection_init" (payloadMember payload)
  | subscribe id payload => taggedMessage "subscribe" [("id", .string id), ("payload", payload.toJson)]
  | complete id => taggedMessage "complete" [("id", .string id)]
  | pong payload => taggedMessage "pong" (payloadMember payload)

def ServerMessage.toJson : ServerMessage → Json
  | connectionAck payload => taggedMessage "connection_ack" (payloadMember payload)
  | next id payload => taggedMessage "next" [("id", .string id), ("payload", payload)]
  | error id payload => taggedMessage "error" [("id", .string id), ("payload", payload)]
  | complete id => taggedMessage "complete" [("id", .string id)]
  | ping payload => taggedMessage "ping" (payloadMember payload)
  | pong payload => taggedMessage "pong" (payloadMember payload)

/-- The operation that a message belongs to. -/
def ClientMessage.id? : ClientMessage → Option String
  | subscribe id _ | complete id => some id
  | connectionInit _ | pong _ => none

def ServerMessage.id? : ServerMessage → Option String
  | next id _ | error id _ | complete id => some id
  | connectionAck _ | ping _ | pong _ => none

/-! A message is read as it is written, so that a member that comes twice is noticed. -/

/-- The type of a message, and the record of everything else. -/
def splitTagged? : Json → Option (String × Json)
  | .object members =>
      match members.filter (·.1 == "type") with
      | [(_, .string type)] => some (type, .object (members.filter (·.1 != "type")))
      | _ => none
  | .array (.string type :: rest) => some (type, .array rest)
  | _ => none

/-- The payload of a message that has nothing else. -/
def readPayload? (body : Json) : Option (Option Json) := do
  guard (body.isRecord ["payload"])
  Json.optional (fun p => some p.canonical) (body.field? ["payload"] "payload")

/-- The id of a message that has nothing else. -/
def readId? (body : Json) : Option String := do
  guard (body.isRecord ["id"])
  Json.needed Json.string? (body.field? ["id"] "id")

/-- The id and the payload of a message that has both. -/
def readIdPayload? {α : Type} (read : Json → Option α) (body : Json) : Option (String × α) := do
  let fields := ["id", "payload"]
  guard (body.isRecord fields)
  let id ← Json.needed Json.string? (body.field? fields "id")
  let payload ← Json.needed read (body.field? fields "payload")
  return (id, payload)

def readVariables? : Json → Option (List (String × Json))
  | .object members =>
      match (Json.object members).canonical with
      | .object sorted => some sorted
      | _ => none
  | _ => none

def OperationPayload.ofJson? (json : Json) : Option OperationPayload := do
  let fields := ["query", "operationName", "variables"]
  guard (json.isRecord fields)
  let query ← Json.needed Json.string? (json.field? fields "query")
  let operationName ← Json.optional Json.string? (json.field? fields "operationName")
  let variableValues ← Json.orDefault [] readVariables? (json.field? fields "variables")
  return ⟨query, operationName, variableValues⟩

def ClientMessage.ofJson? (json : Json) : Option ClientMessage := do
  let (type, body) ← splitTagged? json
  match type with
  | "connection_init" => connectionInit <$> readPayload? body
  | "subscribe" =>
      (fun (id, payload) => subscribe id payload) <$> readIdPayload? OperationPayload.ofJson? body
  | "complete" => complete <$> readId? body
  | "pong" => pong <$> readPayload? body
  | _ => none

/-- Reads a message; what older servers call `data` is the same as `next`. -/
def ServerMessage.ofJson? (json : Json) : Option ServerMessage := do
  let (type, body) ← splitTagged? json
  let withPayload (make : String → Json → ServerMessage) : Option ServerMessage :=
    (fun (id, payload) => make id payload) <$> readIdPayload? (fun p => some p.canonical) body
  match type with
  | "connection_ack" => connectionAck <$> readPayload? body
  | "next" | "data" => withPayload next
  | "error" => withPayload error
  | "complete" => complete <$> readId? body
  | "ping" => ping <$> readPayload? body
  | "pong" => pong <$> readPayload? body
  | _ => none

end GraphClient.Live
