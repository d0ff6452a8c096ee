import GraphClient.Document.Diagnostic

/-! The place that reading has come to: the tokens that are left, and the mistakes met so far. At the
end of the text the current token is the end, however often one goes on. A step of the reader gives a
value together with a cursor that has no more tokens left than the one it started from (`Parsed`); a
step that has to take a token has fewer left unless none was left (`Advanced`). Those two facts are
what makes reading end. -/

namespace GraphClient

/-- A place among the tokens of a document. -/
structure Cursor where
  /-- The tokens left, without the end. -/
  tokens : List Token
  /-- The length of the text. -/
  size : Nat
  /-- The end of the last token taken. -/
  lastStop : Nat
  diagnostics : List Diagnostic

namespace Cursor

/-- The cursor in front of the first of the tokens of a text of this size. -/
def start (tokens : List Token) (size : Nat) : Cursor := ⟨tokens, size, 0, []⟩

def left (c : Cursor) : Nat := c.tokens.length

def current (c : Cursor) : Token := c.tokens.headD (.finish c.size)

def kind (c : Cursor) : TokenKind := c.current.kind

/-- Whether the current token is of a kind. -/
def at? (c : Cursor) (kind : TokenKind) : Bool := c.kind == kind

def atEnd (c : Cursor) : Bool := c.tokens.isEmpty

/-- The cursor behind the current token. -/
def advance (c : Cursor) : Cursor :=
  { c with tokens := c.tokens.tail, lastStop := c.current.span.stop }

/-- From a place to the end of the last token taken. -/
def spanFrom (c : Cursor) (start : Nat) : Span := ⟨start, max c.lastStop start⟩

def report (c : Cursor) (fault : SyntaxFault) (span : Span) : Cursor :=
  { c with diagnostics := c.diagnostics ++ [⟨fault, span⟩] }

/-- Reports that the current token starts nothing that is wanted here. -/
def missing (c : Cursor) (wanted : Wanted) : Cursor :=
  c.report (.missing wanted c.atEnd) c.current.span

/-- Takes the token that has to stand here, or reports that it does not. -/
def expect (c : Cursor) (kind : TokenKind) : Cursor :=
  if c.at? kind then c.advance else c.report (.unexpected kind c.kind) c.current.span

@[simp] theorem left_advance (c : Cursor) : c.advance.left = c.left - 1 := by
  simp [advance, left]

@[simp] theorem left_report (c : Cursor) (fault : SyntaxFault) (span : Span) :
    (c.report fault span).left = c.left := rfl

@[simp] theorem left_missing (c : Cursor) (wanted : Wanted) : (c.missing wanted).left = c.left := rfl

theorem left_advance_lt {c : Cursor} (h : 0 < c.left) : c.advance.left < c.left := by
  rw [left_advance]
  omega

theorem left_missing_advance_lt {c : Cursor} (wanted : Wanted) (h : 0 < c.left) :
    (c.missing wanted).advance.left < c.left := by
  rw [left_advance, left_missing]
  omega

theorem left_expect_le (c : Cursor) (kind : TokenKind) : (c.expect kind).left ≤ c.left := by
  unfold expect
  split <;> simp

theorem left_pos_of_not_atEnd {c : Cursor} (h : c.atEnd = false) : 0 < c.left := by
  cases c with
  | mk tokens => cases tokens <;> simp_all [atEnd, left]

theorem left_pos_of_kind {c : Cursor} {kind : TokenKind} (h : c.kind = kind) (hk : kind ≠ .finish) :
    0 < c.left := by
  cases c with
  | mk tokens =>
      cases tokens with
      | nil => exact absurd h.symm hk
      | cons => simp [left]

theorem left_pos_of_at? {c : Cursor} {kind : TokenKind} (h : c.at? kind = true) (hk : kind ≠ .finish) :
    0 < c.left :=
  left_pos_of_kind (by simpa [at?] using h) hk

end Cursor

/-- What a step that starts at a cursor gives. -/
structure Parsed (c : Cursor) (α : Type) where
  value : α
  next : Cursor
  le : next.left ≤ c.left

/-- What a step gives that takes a token, if one is left. -/
structure Advanced (c : Cursor) (α : Type) where
  value : α
  next : Cursor
  le : next.left ≤ c.left
  lt : 0 < c.left → next.left < c.left

end GraphClient
