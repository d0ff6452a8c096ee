import GraphClient.Live.Client
import GraphClient.Text.Visible

/-! Short texts about the parts of a client. The values of fields are left out, since objects may refer
to each other in a circle. -/

namespace GraphClient.Live

/-- A named group of parts. -/
def summaryOf (name : String) (parts : List (String × String)) : String :=
  name ++ " \x7b " ++ ", ".intercalate (parts.map fun p => p.1 ++ ": " ++ p.2) ++ " \x7d"

def optionalText : Option String → String
  | some s => "Some(" ++ Text.visible s ++ ")"
  | none => "None"

def flagText (b : Bool) : String := if b then "true" else "false"

def Instance.summary (o : Instance) : String :=
  summaryOf "ObjectRef" [("typename", Text.visible o.typeName), ("id", optionalText o.id?),
    ("fields", "[" ++ ", ".intercalate (o.fields.names.map Text.visible) ++ "]")]

def ObjectList.summary (l : ObjectList) : String :=
  summaryOf "ReactiveList" [("element_type", Text.visible l.elementType), ("keyed", flagText l.keyed),
    ("len", toString l.items.length)]

def Subscription.summary (s : Subscription) : String :=
  summaryOf "Subscription" [("id", toString s.number),
    ("target", match s.target with
      | .object _ => Text.visible "object"
      | .list _ => Text.visible "list")]

def Handler.summary {κ : Type} (h : Handler κ) : String :=
  summaryOf "QueryHandler" [("operation", Text.visible h.request.name), ("state", h.state.label),
    ("id", optionalText h.id)]

def Client.summary {κ σ : Type} (c : Client κ σ) : String :=
  summaryOf "Environment" [("types", toString c.plans.graph.definitions.length),
    ("active_operations", toString c.activeOperations)]

end GraphClient.Live
