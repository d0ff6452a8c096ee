import GraphClient.Text.Span

/-! The words and marks of a query document. -/

namespace GraphClient

/-- A word that the grammar knows. Any of them may also stand where a name is asked for. -/
inductive Keyword
  | query
  | mutation
  | subscription
  | fragment
  | on
  | type
  | interface
  | union
  | enum
  | input
  | scalar
  | schema
  | extend
  | directive
  | true
  | false
  | null
  deriving DecidableEq, Repr

/-- A mark of one or three characters. -/
inductive Mark
  | openBrace
  | closeBrace
  | openParen
  | closeParen
  | openBracket
  | closeBracket
  | colon
  | spread
  | equals
  | pipe
  | ampersand
  | atSign
  | bang
  | dollar
  deriving DecidableEq, Repr

/-- What a token is. `invalid` is a piece of text that no other kind describes, and `finish` the end of
the text. -/
inductive TokenKind
  | finish
  | invalid
  | name
  | int
  | float
  | string
  | blockString
  | keyword (word : Keyword)
  | mark (mark : Mark)
  deriving DecidableEq, Repr

namespace Keyword

def all : List Keyword :=
  [.query, .mutation, .subscription, .fragment, .on, .type, .interface, .union, .enum, .input,
    .scalar, .schema, .extend, .directive, .true, .false, .null]

def text : Keyword → String
  | query => "query"
  | mutation => "mutation"
  | subscription => "subscription"
  | fragment => "fragment"
  | on => "on"
  | type => "type"
  | interface => "interface"
  | union => "union"
  | enum => "enum"
  | input => "input"
  | scalar => "scalar"
  | schema => "schema"
  | extend => "extend"
  | directive => "directive"
  | true => "true"
  | false => "false"
  | null => "null"

/-- The keyword that a word spells. -/
def ofText? (word : String) : Option Keyword := all.find? fun k => k.text == word

/-- The words that begin a definition of the type system, which a query document may not hold. -/
def startsTypeSystem : Keyword → Bool
  | type | interface | union | enum | input | scalar | schema | extend | directive => Bool.true
  | _ => Bool.false

end Keyword

namespace Mark

def text : Mark → String
  | openBrace => "\x7b"
  | closeBrace => "\x7d"
  | openParen => "("
  | closeParen => ")"
  | openBracket => "["
  | closeBracket => "]"
  | colon => ":"
  | spread => "..."
  | equals => "="
  | pipe => "|"
  | ampersand => "&"
  | atSign => "@"
  | bang => "!"
  | dollar => "$"

/-- The mark that a single character is. -/
def ofChar? : Char → Option Mark
  | '\x7b' => some openBrace
  | '\x7d' => some closeBrace
  | '(' => some openParen
  | ')' => some closeParen
  | '[' => some openBracket
  | ']' => some closeBracket
  | ':' => some colon
  | '=' => some equals
  | '|' => some pipe
  | '&' => some ampersand
  | '@' => some atSign
  | '!' => some bang
  | '$' => some dollar
  | _ => none

end Mark

namespace TokenKind

/-- The kind as a message shows it. -/
def label : TokenKind → String
  | finish => "<eof>"
  | invalid => "<error>"
  | name => "<ident>"
  | int => "<int>"
  | float => "<float>"
  | string => "<string>"
  | blockString => "<block-string>"
  | keyword word => word.text
  | mark m => m.text

def isKeyword : TokenKind → Bool
  | keyword _ => Bool.true
  | _ => Bool.false

/-- A name may be spelled like a keyword. -/
def isName : TokenKind → Bool
  | name | keyword _ => Bool.true
  | _ => Bool.false

end TokenKind

/-- A token, the place it stands at and the text it was cut from. A piece of a character has no text. -/
structure Token where
  kind : TokenKind
  span : Span
  text : String
  deriving DecidableEq, Repr

/-- The end of a text. -/
def Token.finish (place : Nat) : Token := ⟨.finish, .empty place, ""⟩

end GraphClient
