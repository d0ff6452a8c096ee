import GraphClient.Live.Message
import GraphClient.Proofs.Json.Canonical
import GraphClient.Table
import Mathlib

/-! Messages in writing. A message is read back as it was written, and whatever is read as a message
is written in one form: it is read as the same message, it carries the same id, and it has no member
for what the message does not have (`messages_lossless`). -/

namespace GraphClient.Live

theorem splitTagged?_taggedMessage {type : String} {members : List (String × Json)}
    (hmembers : "type" ∉ members.map (·.1)) :
    splitTagged? (taggedMessage type members) = some (type, .object members) := by
  have hne : ∀ m ∈ members, m.1 ≠ "type" := fun m hm heq => hmembers (heq ▸ List.mem_map_of_mem hm)
  have hnone : members.filter (·.1 == "type") = [] := by
    rw [List.filter_eq_nil_iff]
    intro m hm
    rw [beq_iff_eq]
    exact hne m hm
  have hall : members.filter (·.1 != "type") = members := by
    rw [List.filter_eq_self]
    intro m hm
    rw [bne_iff_ne]
    exact hne m hm
  simp only [taggedMessage, splitTagged?, List.filter_cons, beq_self_eq_true, bne_self_eq_false,
    if_true, hnone, hall, Bool.false_eq_true, if_false]

theorem lookup_filter_of_ne {name other : String} (hne : name ≠ other) (members : List (String × Json)) :
    (members.filter (·.1 != other)).lookup name = members.lookup name := by
  induction members with
  | nil => rfl
  | cons m rest ih =>
      obtain ⟨first, value⟩ := m
      rw [Table.lookup_cons_eq, List.filter_cons]
      split
      · rw [Table.lookup_cons_eq, ih]
      · rename_i hfirst
        rw [ih, if_neg]
        rintro rfl
        exact hfirst (bne_iff_ne.2 hne)

/-- The id that a message carries as it stands: its member `id`, or what comes behind the type in an array. -/
def idInWriting? : Json → Option String
  | .object members => (members.lookup "id").bind Json.string?
  | .array items => items[1]?.bind Json.string?
  | _ => none

/-- What stands at the end of some member names. -/
def memberAt? : List String → Json → Option Json
  | [], json => some json
  | name :: rest, json => (json.get? name).bind (memberAt? rest)

/-- The field `id` of what goes with the type is the id that the message carries. -/
theorem idInWriting?_of_field {json body : Json} {type id : String} {others : List String}
    (hsplit : splitTagged? json = some (type, body))
    (hid : body.field? ("id" :: others) "id" = some (.string id)) :
    idInWriting? json = some id := by
  unfold splitTagged? at hsplit
  split at hsplit
  · split at hsplit <;> cases hsplit
    rw [Json.field?, lookup_filter_of_ne (by decide)] at hid
    rw [idInWriting?, hid]
    rfl
  · rename_i rest
    cases hsplit
    have hfirst : rest[0]? = some (.string id) := hid
    rw [idInWriting?, List.getElem?_cons_succ, hfirst]
    rfl
  · cases hsplit

/-- That a payload that may be missing is a canonical value, and not null. -/
def ProperPayload (payload : Option Json) : Prop := ∀ p ∈ payload, p.canonical = p ∧ p ≠ .null

theorem type_notMem_payloadMember (payload : Option Json) : "type" ∉ (payloadMember payload).map (·.1) := by
  cases payload with
  | none => exact List.not_mem_nil
  | some p => exact (by decide : "type" ∉ ["payload"])

theorem type_notMem_fields (id : String) (payload : Json) :
    "type" ∉ [("id", Json.string id), ("payload", payload)].map (·.1) :=
  (by decide : "type" ∉ ["id", "payload"])

theorem Json.optional_of_ne_null {α : Type} {read : Json → Option α} {value : Json} (hne : value ≠ .null) :
    Json.optional read (some value) = (read value).map some := by
  cases value with
  | null => exact absurd rfl hne
  | _ => rfl

theorem readPayload?_payloadMember {payload : Option Json} (hpayload : ProperPayload payload) :
    readPayload? (.object (payloadMember payload)) = some payload := by
  cases payload with
  | none => rfl
  | some p =>
      obtain ⟨hcanonical, hne⟩ := hpayload p rfl
      change Json.optional (fun p => some p.canonical) (some p) = _
      rw [Json.optional_of_ne_null hne, hcanonical]
      rfl

theorem proper_of_readPayload? {body : Json} {payload : Option Json}
    (hread : readPayload? body = some payload) :
    ProperPayload payload := by
  rw [readPayload?, Option.bind_eq_bind, Option.bind_eq_some_iff] at hread
  obtain ⟨-, -, hread⟩ := hread
  rintro p rfl
  unfold Json.optional at hread
  split at hread
  · cases hread
  · cases hread
  · rename_i hnull _
    cases hread
    exact ⟨Json.canonical_canonical _, fun heq => hnull (Json.canonical_eq_null.1 heq)⟩

theorem needed_eq_some {α : Type} {read : Json → Option α} {field? : Option Json} {a : α} :
    Json.needed read field? = some a ↔ ∃ value, field? = some value ∧ read value = some a := by
  cases field? with
  | none => simp [Json.needed]
  | some value => simp [Json.needed]

theorem string?_eq_some {json : Json} {s : String} : json.string? = some s ↔ json = .string s := by
  cases json <;> simp [Json.string?]

theorem field_of_readId? {body : Json} {id : String} (hread : readId? body = some id) :
    body.field? ["id"] "id" = some (.string id) := by
  rw [readId?, Option.bind_eq_bind, Option.bind_eq_some_iff] at hread
  obtain ⟨-, -, hread⟩ := hread
  obtain ⟨value, hfield, hstring⟩ := needed_eq_some.1 hread
  rw [hfield, string?_eq_some.1 hstring]

theorem readIdPayload?_members {α : Type} (read : Json → Option α) (id : String) (payload : Json) :
    readIdPayload? read (.object [("id", .string id), ("payload", payload)]) =
      (read payload).map (id, ·) := by
  change (read payload).bind (fun p => some (id, p)) = _
  cases read payload <;> rfl

theorem readIdPayload?_canonical (id : String) {payload : Json} (hcanonical : payload.canonical = payload) :
    readIdPayload? (fun p => some p.canonical) (.object [("id", .string id), ("payload", payload)]) =
      some (id, payload) := by
  rw [readIdPayload?_members, Option.map_some, hcanonical]

theorem fields_of_readIdPayload? {α : Type} {read : Json → Option α} {body : Json} {id : String} {payload : α}
    (hread : readIdPayload? read body = some (id, payload)) :
    body.field? ["id", "payload"] "id" = some (.string id) ∧ ∃ value, read value = some payload := by
  simp only [readIdPayload?, Option.bind_eq_bind, Option.bind_eq_some_iff] at hread
  obtain ⟨-, -, id', hid, payload', hpayload, heq⟩ := hread
  cases heq
  obtain ⟨value, hfield, hstring⟩ := needed_eq_some.1 hid
  obtain ⟨value', -, hvalue⟩ := needed_eq_some.1 hpayload
  rw [hfield, string?_eq_some.1 hstring]
  exact ⟨rfl, value', hvalue⟩

/-- That the values of the variables are those of a canonical object. -/
def OperationPayload.Proper (p : OperationPayload) : Prop :=
  (Json.object p.variableValues).canonical = .object p.variableValues

theorem readVariables?_object {members : List (String × Json)}
    (hproper : (Json.object members).canonical = .object members) :
    readVariables? (.object members) = some members := by
  simp only [readVariables?, hproper]

theorem proper_of_readVariables? {json : Json} {members : List (String × Json)}
    (hread : readVariables? json = some members) : (Json.object members).canonical = .object members := by
  cases json with
  | object written =>
      simp only [readVariables?, Json.canonical_object, Option.some.injEq] at hread
      rw [← hread, ← Json.canonical_object, Json.canonical_canonical]
  | _ => cases hread

theorem OperationPayload.ofJson?_eq_some {json : Json} {p : OperationPayload} :
    ofJson? json = some p ↔
      json.isRecord ["query", "operationName", "variables"] = true ∧
        Json.needed Json.string? (json.field? ["query", "operationName", "variables"] "query") =
          some p.query ∧
        Json.optional Json.string? (json.field? ["query", "operationName", "variables"] "operationName") =
          some p.operationName ∧
        Json.orDefault [] readVariables? (json.field? ["query", "operationName", "variables"] "variables") =
          some p.variableValues := by
  simp only [ofJson?, Option.bind_eq_bind, Option.bind_eq_some_iff]
  constructor
  · rintro ⟨_, hguard, query, hquery, name, hname, values, hvalues, heq⟩
    cases heq
    refine ⟨?_, hquery, hname, hvalues⟩
    rw [guard] at hguard
    split at hguard
    · assumption
    · cases hguard
  · rintro ⟨hrecord, hquery, hname, hvalues⟩
    exact ⟨(), by simp [hrecord], p.query, hquery, p.operationName, hname, p.variableValues, hvalues, rfl⟩

theorem OperationPayload.ofJson?_toJson {p : OperationPayload} (hproper : p.Proper) :
    ofJson? p.toJson = some p := by
  obtain ⟨query, operationName, variableValues⟩ := p
  have hvariables := readVariables?_object hproper
  rw [ofJson?_eq_some]
  cases operationName <;> cases variableValues
  · exact ⟨rfl, rfl, rfl, rfl⟩
  · exact ⟨rfl, rfl, rfl, hvariables⟩
  · exact ⟨rfl, rfl, rfl, rfl⟩
  · exact ⟨rfl, rfl, rfl, hvariables⟩

theorem OperationPayload.proper_of_ofJson? {json : Json} {p : OperationPayload}
    (hread : ofJson? json = some p) :
    p.Proper := by
  obtain ⟨-, -, -, hvariables⟩ := ofJson?_eq_some.1 hread
  cases hfield : json.field? ["query", "operationName", "variables"] "variables" with
  | none =>
      rw [hfield] at hvariables
      rw [Proper, ← Option.some.inj hvariables]
      rfl
  | some value =>
      rw [hfield] at hvariables
      exact proper_of_readVariables? hvariables

namespace ServerMessage

/-- That the payload is canonical, and not null if it may be missing. -/
def Proper : ServerMessage → Prop
  | connectionAck payload | ping payload | pong payload => ProperPayload payload
  | next _ payload | error _ payload => payload.canonical = payload
  | complete _ => True

/-- The members that may be missing, with what the message has for them. -/
def optionalMembers : ServerMessage → List (List String × Option Json)
  | connectionAck payload | ping payload | pong payload => [(["payload"], payload)]
  | next _ _ | error _ _ | complete _ => []

/-- That a message is what its fields read as. -/
def ReadFrom (body : Json) : ServerMessage → Prop
  | connectionAck payload | ping payload | pong payload => readPayload? body = some payload
  | next id payload | error id payload => readIdPayload? (fun p => some p.canonical) body = some (id, payload)
  | complete id => readId? body = some id

variable {json : Json} {m : ServerMessage}

theorem readFrom_of_ofJson? (hread : ofJson? json = some m) :
    ∃ type body, splitTagged? json = some (type, body) ∧ m.ReadFrom body := by
  obtain ⟨⟨type, body⟩, hsplit, hread⟩ := Option.bind_eq_some_iff.1 hread
  refine ⟨type, body, hsplit, ?_⟩
  dsimp only at hread
  split at hread
  all_goals
    first
      | cases hread
      | obtain ⟨read, hbody, rfl⟩ := Option.map_eq_some_iff.1 hread
        exact hbody

theorem ofJson?_toJson (hm : m.Proper) : ofJson? m.toJson = some m := by
  cases m with
  | connectionAck payload =>
      rw [ofJson?, toJson, splitTagged?_taggedMessage (type_notMem_payloadMember payload)]
      exact congrArg (connectionAck <$> ·) (readPayload?_payloadMember hm)
  | ping payload =>
      rw [ofJson?, toJson, splitTagged?_taggedMessage (type_notMem_payloadMember payload)]
      exact congrArg (ping <$> ·) (readPayload?_payloadMember hm)
  | pong payload =>
      rw [ofJson?, toJson, splitTagged?_taggedMessage (type_notMem_payloadMember payload)]
      exact congrArg (pong <$> ·) (readPayload?_payloadMember hm)
  | next id payload =>
      rw [ofJson?, toJson, splitTagged?_taggedMessage (type_notMem_fields id payload)]
      exact congrArg (Option.map fun fields => next fields.1 fields.2) (readIdPayload?_canonical id hm)
  | error id payload =>
      rw [ofJson?, toJson, splitTagged?_taggedMessage (type_notMem_fields id payload)]
      exact congrArg (Option.map fun fields => error fields.1 fields.2) (readIdPayload?_canonical id hm)
  | complete id => rfl

theorem proper_of_ofJson? (hread : ofJson? json = some m) : m.Proper := by
  obtain ⟨-, body, -, hbody⟩ := readFrom_of_ofJson? hread
  cases m with
  | connectionAck payload | ping payload | pong payload => exact proper_of_readPayload? hbody
  | next id payload | error id payload =>
      obtain ⟨-, value, hvalue⟩ := fields_of_readIdPayload? hbody
      cases hvalue
      exact Json.canonical_canonical value
  | complete id => exact trivial

theorem idInWriting?_toJson (m : ServerMessage) : idInWriting? m.toJson = m.id? := by
  cases m with
  | connectionAck payload | ping payload | pong payload => cases payload <;> rfl
  | _ => rfl

theorem idInWriting?_of_ofJson? (hread : ofJson? json = some m) {id : String} (hid : m.id? = some id) :
    idInWriting? json = some id := by
  obtain ⟨type, body, hsplit, hbody⟩ := readFrom_of_ofJson? hread
  cases m with
  | connectionAck payload | ping payload | pong payload => cases hid
  | next id payload | error id payload =>
      cases hid
      exact idInWriting?_of_field hsplit (fields_of_readIdPayload? hbody).1
  | complete id =>
      cases hid
      exact idInWriting?_of_field hsplit (field_of_readId? hbody)

theorem memberAt?_toJson {e : List String × Option Json} (he : e ∈ m.optionalMembers) :
    memberAt? e.1 m.toJson = e.2 := by
  cases m with
  | connectionAck payload | ping payload | pong payload =>
      obtain rfl := List.mem_singleton.1 he
      cases payload <;> rfl
  | _ => cases he

theorem ne_null_of_proper (hm : m.Proper) {e : List String × Option Json} (he : e ∈ m.optionalMembers) :
    e.2 ≠ some .null := by
  cases m with
  | connectionAck payload | ping payload | pong payload =>
      obtain rfl := List.mem_singleton.1 he
      exact fun hnull => (hm .null hnull).2 rfl
  | _ => cases he

end ServerMessage

namespace ClientMessage

/-- That the payload is canonical, and not null if it may be missing. -/
def Proper : ClientMessage → Prop
  | connectionInit payload | pong payload => ProperPayload payload
  | subscribe _ payload => payload.Proper
  | complete _ => True

/-- The members that may be missing, with what the message has for them. Variables
are missing if there are none. -/
def optionalMembers : ClientMessage → List (List String × Option Json)
  | connectionInit payload | pong payload => [(["payload"], payload)]
  | subscribe _ p =>
      [(["payload", "operationName"], p.operationName.map .string),
        (["payload", "variables"],
          if p.variableValues.isEmpty then none else some (.object p.variableValues))]
  | complete _ => []

/-- That a message is what its fields read as. -/
def ReadFrom (body : Json) : ClientMessage → Prop
  | connectionInit payload | pong payload => readPayload? body = some payload
  | subscribe id payload => readIdPayload? OperationPayload.ofJson? body = some (id, payload)
  | complete id => readId? body = some id

variable {json : Json} {m : ClientMessage}

theorem readFrom_of_ofJson? (hread : ofJson? json = some m) :
    ∃ type body, splitTagged? json = some (type, body) ∧ m.ReadFrom body := by
  obtain ⟨⟨type, body⟩, hsplit, hread⟩ := Option.bind_eq_some_iff.1 hread
  refine ⟨type, body, hsplit, ?_⟩
  dsimp only at hread
  split at hread
  all_goals
    first
      | cases hread
      | obtain ⟨read, hbody, rfl⟩ := Option.map_eq_some_iff.1 hread
        exact hbody

theorem ofJson?_toJson (hm : m.Proper) : ofJson? m.toJson = some m := by
  cases m with
  | connectionInit payload =>
      rw [ofJson?, toJson, splitTagged?_taggedMessage (type_notMem_payloadMember payload)]
      exact congrArg (connectionInit <$> ·) (readPayload?_payloadMember hm)
  | pong payload =>
      rw [ofJson?, toJson, splitTagged?_taggedMessage (type_notMem_payloadMember payload)]
      exact congrArg (pong <$> ·) (readPayload?_payloadMember hm)
  | subscribe id payload =>
      have hfields : readIdPayload? OperationPayload.ofJson?
          (.object [("id", .string id), ("payload", payload.toJson)]) = some (id, payload) := by
        rw [readIdPayload?_members, OperationPayload.ofJson?_toJson hm, Option.map_some]
      rw [ofJson?, toJson, splitTagged?_taggedMessage (type_notMem_fields id payload.toJson)]
      exact congrArg (Option.map fun fields => subscribe fields.1 fields.2) hfields
  | complete id => rfl

theorem proper_of_ofJson? (hread : ofJson? json = some m) : m.Proper := by
  obtain ⟨-, body, -, hbody⟩ := readFrom_of_ofJson? hread
  cases m with
  | connectionInit payload | pong payload => exact proper_of_readPayload? hbody
  | subscribe id payload =>
      obtain ⟨-, value, hvalue⟩ := fields_of_readIdPayload? hbody
      exact OperationPayload.proper_of_ofJson? hvalue
  | complete id => exact trivial

theorem idInWriting?_toJson (m : ClientMessage) : idInWriting? m.toJson = m.id? := by
  cases m with
  | connectionInit payload | pong payload => cases payload <;> rfl
  | _ => rfl

theorem idInWriting?_of_ofJson? (hread : ofJson? json = some m) {id : String} (hid : m.id? = some id) :
    idInWriting? json = some id := by
  obtain ⟨type, body, hsplit, hbody⟩ := readFrom_of_ofJson? hread
  cases m with
  | connectionInit payload | pong payload => cases hid
  | subscribe id payload =>
      cases hid
      exact idInWriting?_of_field hsplit (fields_of_readIdPayload? hbody).1
  | complete id =>
      cases hid
      exact idInWriting?_of_field hsplit (field_of_readId? hbody)

theorem memberAt?_toJson {e : List String × Option Json} (he : e ∈ m.optionalMembers) :
    memberAt? e.1 m.toJson = e.2 := by
  cases m with
  | connectionInit payload | pong payload =>
      obtain rfl := List.mem_singleton.1 he
      cases payload <;> rfl
  | subscribe id payload =>
      obtain ⟨query, operationName, variableValues⟩ := payload
      rcases List.mem_cons.1 he with rfl | he
      · cases operationName <;> cases variableValues <;> rfl
      · obtain rfl := List.mem_singleton.1 he
        cases operationName <;> cases variableValues <;> rfl
  | complete id => cases he

theorem ne_null_of_proper (hm : m.Proper) {e : List String × Option Json} (he : e ∈ m.optionalMembers) :
    e.2 ≠ some .null := by
  cases m with
  | connectionInit payload | pong payload =>
      obtain rfl := List.mem_singleton.1 he
      exact fun hnull => (hm .null hnull).2 rfl
  | subscribe id payload =>
      obtain ⟨query, operationName, variableValues⟩ := payload
      rcases List.mem_cons.1 he with rfl | he
      · cases operationName <;> exact nofun
      · obtain rfl := List.mem_singleton.1 he
        cases variableValues <;> exact nofun
  | complete id => cases he

end ClientMessage

/-- What ties the writing of messages to their reading, for messages with an id and
members that may be missing. -/
structure Lossless {Message : Type} (write : Message → Json) (read? : Json → Option Message)
    (Proper : Message → Prop)
    (id? : Message → Option String) (optionalMembers : Message → List (List String × Option Json)) :
    Prop where
  /-- A message is read as it was written. -/
  read_write : ∀ m, Proper m → read? (write m) = some m
  /-- What was read once is written in a form that reads as the same message. -/
  read_again : ∀ json, (read? json).bind (read? ∘ write) = read? json
  /-- The form that is written carries the id that was read. -/
  id : ∀ {json m}, read? json = some m →
    idInWriting? (write m) = id? m ∧ ∀ id, id? m = some id → idInWriting? json = some id
  /-- A member that the message does not have is not written, and none is written as null. -/
  optional : ∀ {json m}, read? json = some m → ∀ e ∈ optionalMembers m,
    memberAt? e.1 (write m) = e.2 ∧ e.2 ≠ some .null

theorem Lossless.of_proper {Message : Type} {write : Message → Json} {read? : Json → Option Message}
    {Proper : Message → Prop} {id? : Message → Option String}
    {optionalMembers : Message → List (List String × Option Json)}
    (hwrite : ∀ {m}, Proper m → read? (write m) = some m)
    (hproper : ∀ {json m}, read? json = some m → Proper m)
    (hid : ∀ m, idInWriting? (write m) = id? m)
    (hkept : ∀ {json m}, read? json = some m → ∀ {id}, id? m = some id → idInWriting? json = some id)
    (hmember : ∀ {m e}, e ∈ optionalMembers m → memberAt? e.1 (write m) = e.2)
    (hnull : ∀ {m}, Proper m → ∀ {e}, e ∈ optionalMembers m → e.2 ≠ some .null) :
    Lossless write read? Proper id? optionalMembers := by
  refine ⟨fun m hm => hwrite hm, fun json => ?_, fun hread => ⟨hid _, fun _ => hkept hread⟩,
    fun hread e he => ⟨hmember he, hnull (hproper hread) he⟩⟩
  cases hread : read? json with
  | none => rfl
  | some m => exact hwrite (hproper hread)

/-- No message is lost in writing. -/
theorem messages_lossless :
    Lossless ClientMessage.toJson ClientMessage.ofJson? ClientMessage.Proper ClientMessage.id?
        ClientMessage.optionalMembers ∧
      Lossless ServerMessage.toJson ServerMessage.ofJson? ServerMessage.Proper ServerMessage.id?
        ServerMessage.optionalMembers :=
  ⟨.of_proper ClientMessage.ofJson?_toJson ClientMessage.proper_of_ofJson? ClientMessage.idInWriting?_toJson
      ClientMessage.idInWriting?_of_ofJson? ClientMessage.memberAt?_toJson ClientMessage.ne_null_of_proper,
    .of_proper ServerMessage.ofJson?_toJson ServerMessage.proper_of_ofJson? ServerMessage.idInWriting?_toJson
      ServerMessage.idInWriting?_of_ofJson? ServerMessage.memberAt?_toJson ServerMessage.ne_null_of_proper⟩

end GraphClient.Live
