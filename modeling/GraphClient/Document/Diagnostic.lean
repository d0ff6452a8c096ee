import GraphClient.Document.Token

/-! What can be wrong with the text of a document. Reading goes on after a mistake, so a document may
have several of them. -/

namespace GraphClient

/-- What a place of the grammar asks for. -/
inductive Wanted
  | definition
  | name
  | selection
  | argumentName
  | value
  deriving DecidableEq, Repr

def Wanted.text : Wanted → String
  | definition => "operation or fragment definition"
  | name => "name"
  | selection => "field, fragment spread or inline fragment"
  | argumentName => "argument name"
  | value => "value"

/-- A mistake in a document. -/
inductive SyntaxFault
  /-- Another token than the one that has to stand here. -/
  | unexpected (expected found : TokenKind)
  /-- None of the tokens that can start what is wanted. -/
  | missing (wanted : Wanted) (atEnd : Bool)
  | emptySelectionSet
  /-- An integer beyond 64 bits. -/
  | integerRange (digits : String)
  /-- A definition of the type system. -/
  | typeSystem (word : Keyword)
  deriving DecidableEq, Repr

/-- A mistake and its place. -/
structure Diagnostic where
  fault : SyntaxFault
  span : Span
  deriving DecidableEq, Repr

namespace SyntaxFault

def code : SyntaxFault → String
  | unexpected _ _ => "E0001"
  | missing _ atEnd => if atEnd then "E0002" else "E0003"
  | emptySelectionSet | integerRange _ => "E0003"
  | typeSystem _ => "E0004"

def title : SyntaxFault → String
  | unexpected _ _ => "unexpected token"
  | missing wanted _ => "expected " ++ wanted.text
  | emptySelectionSet => "empty selection set"
  | integerRange _ => "integer out of range"
  | typeSystem _ => "type system definition in query document"

/-- What is said at the place itself. -/
def message : SyntaxFault → String
  | unexpected expected found => "expected `" ++ expected.label ++ "`, found `" ++ found.label ++ "`"
  | missing wanted _ => "expected " ++ wanted.text
  | emptySelectionSet => "a selection set must select at least one field"
  | integerRange digits => "`" ++ digits ++ "` does not fit in 64 bits"
  | typeSystem word => "`" ++ word.text ++ "` definitions belong in the schema, not in operations"

end SyntaxFault

/-- The whole of a diagnostic on one line. -/
def Diagnostic.text (d : Diagnostic) : String :=
  "[" ++ d.fault.code ++ "] " ++ d.fault.title ++ " at " ++ toString d.span.start ++ ".." ++
    toString d.span.stop ++ ": " ++ d.fault.message

end GraphClient
