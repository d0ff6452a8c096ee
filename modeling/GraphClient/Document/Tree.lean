import GraphClient.Document.Token
import GraphClient.Number.Binary64

/-! Query documents as trees: operations and fragments, what they select, and the literals and types in
them. Every node knows the span it was read from. -/

namespace GraphClient

/-- A name in a document. A missing name is empty. -/
structure Name where
  text : String
  span : Span
  deriving DecidableEq, Repr

/-- The type of a variable. -/
inductive TypeExpr
  | named (name : Name)
  | list (item : TypeExpr) (span : Span)
  | nonNull (inner : TypeExpr) (span : Span)
  deriving DecidableEq, Repr

namespace TypeExpr

def text : TypeExpr → String
  | named name => name.text
  | list item _ => "[" ++ item.text ++ "]"
  | nonNull inner _ => inner.text ++ "!"

end TypeExpr

/-- A value written in a document. -/
inductive Literal
  | variable (name : Name)
  | int (value : Int) (span : Span)
  | float (value : Binary64) (span : Span)
  | string (value : String) (span : Span)
  | boolean (value : Bool) (span : Span)
  | null (span : Span)
  | enum (name : Name)
  | list (items : List Literal) (span : Span)
  | object (fields : List (Name × Literal)) (span : Span)

/-- The span of a literal. A variable is found at its name, without the mark before it. -/
def Literal.span : Literal → Span
  | .variable name | .enum name => name.span
  | .int _ span | .float _ span | .string _ span | .boolean _ span | .null span | .list _ span
  | .object _ span => span

structure Argument where
  name : Name
  value : Literal
  span : Span

structure Directive where
  name : Name
  arguments : List Argument
  span : Span

mutual

/-- One thing that is asked for. -/
inductive Selection
  | field (key : Option Name) (name : Name) (arguments : List Argument)
      (directives : List Directive) (set : Option SelectionSet) (span : Span)
  | spread (name : Name) (directives : List Directive) (span : Span)
  | inline (condition : Option Name) (directives : List Directive) (set : SelectionSet) (span : Span)

/-- What stands between braces. -/
inductive SelectionSet
  | mk (selections : List Selection) (span : Span)

end

namespace SelectionSet

def selections : SelectionSet → List Selection
  | mk selections _ => selections

def span : SelectionSet → Span
  | mk _ span => span

end SelectionSet

inductive OperationKind
  | query
  | mutation
  | subscription
  deriving DecidableEq, Repr

def OperationKind.text : OperationKind → String
  | query => "query"
  | mutation => "mutation"
  | subscription => "subscription"

structure VariableDefinition where
  name : Name
  type : TypeExpr
  default : Option Literal
  span : Span

structure OperationDefinition where
  kind : OperationKind
  name : Option Name
  variableDefinitions : List VariableDefinition
  directives : List Directive
  set : SelectionSet
  span : Span

structure FragmentDefinition where
  name : Name
  condition : Name
  directives : List Directive
  set : SelectionSet
  span : Span

inductive Definition
  | operation (definition : OperationDefinition)
  | fragment (definition : FragmentDefinition)

structure Document where
  definitions : List Definition
  span : Span

namespace Document

def operations (document : Document) : List OperationDefinition :=
  document.definitions.filterMap fun
    | .operation definition => some definition
    | .fragment _ => none

def fragments (document : Document) : List FragmentDefinition :=
  document.definitions.filterMap fun
    | .fragment definition => some definition
    | .operation _ => none

end Document

end GraphClient
