/-! Places in a text. A place is counted in bytes of the UTF-8 form, so that a span can be handed to
any tool that reads the file; a span that does not start and end between two characters covers no
text. -/

namespace GraphClient

namespace Text

/-- The number of bytes of the UTF-8 form. -/
def byteLength : List Char → Nat
  | [] => 0
  | c :: cs => c.utf8Size + byteLength cs

/-- What is left after the first `n` bytes, if they end between two characters. -/
def dropBytes : Nat → List Char → Option (List Char)
  | 0, cs => some cs
  | _ + 1, [] => none
  | n + 1, c :: cs => if c.utf8Size ≤ n + 1 then dropBytes (n + 1 - c.utf8Size) cs else none

/-- The first `n` bytes, if they end between two characters. -/
def takeBytes : Nat → List Char → Option (List Char)
  | 0, _ => some []
  | _ + 1, [] => none
  | n + 1, c :: cs =>
      if c.utf8Size ≤ n + 1 then (takeBytes (n + 1 - c.utf8Size) cs).map (c :: ·) else none

@[simp] theorem byteLength_nil : byteLength [] = 0 := rfl

@[simp] theorem byteLength_cons (c : Char) (cs : List Char) :
    byteLength (c :: cs) = c.utf8Size + byteLength cs := rfl

theorem byteLength_append (cs ds : List Char) :
    byteLength (cs ++ ds) = byteLength cs + byteLength ds := by
  induction cs with
  | nil => simp
  | cons c cs ih => simp [ih, Nat.add_assoc]

theorem dropBytes_zero (cs : List Char) : dropBytes 0 cs = some cs := by
  cases cs <;> rfl

theorem takeBytes_zero (cs : List Char) : takeBytes 0 cs = some [] := by
  cases cs <;> rfl

theorem dropBytes_cons (n : Nat) (c : Char) (cs : List Char) :
    dropBytes (c.utf8Size + n) (c :: cs) = dropBytes n cs := by
  obtain ⟨k, hk⟩ := Nat.exists_eq_add_of_lt c.utf8Size_pos
  have hsum : c.utf8Size + n = k + n + 1 := by omega
  have hrest : k + n + 1 - c.utf8Size = n := by omega
  rw [hsum, dropBytes, if_pos (by omega), hrest]

theorem takeBytes_cons (n : Nat) (c : Char) (cs : List Char) :
    takeBytes (c.utf8Size + n) (c :: cs) = (takeBytes n cs).map (c :: ·) := by
  obtain ⟨k, hk⟩ := Nat.exists_eq_add_of_lt c.utf8Size_pos
  have hsum : c.utf8Size + n = k + n + 1 := by omega
  have hrest : k + n + 1 - c.utf8Size = n := by omega
  rw [hsum, takeBytes, if_pos (by omega), hrest]

theorem dropBytes_add (before : List Char) (n : Nat) (cs : List Char) :
    dropBytes (byteLength before + n) (before ++ cs) = dropBytes n cs := by
  induction before with
  | nil => rw [byteLength_nil, Nat.zero_add, List.nil_append]
  | cons c before ih => rw [byteLength_cons, List.cons_append, Nat.add_assoc, dropBytes_cons, ih]

theorem dropBytes_append (cs ds : List Char) : dropBytes (byteLength cs) (cs ++ ds) = some ds :=
  (dropBytes_add cs 0 ds).trans (dropBytes_zero ds)

theorem takeBytes_append (cs ds : List Char) : takeBytes (byteLength cs) (cs ++ ds) = some cs := by
  induction cs with
  | nil => exact takeBytes_zero ds
  | cons c cs ih => rw [byteLength_cons, List.cons_append, takeBytes_cons, ih, Option.map_some]

end Text

/-- A stretch of a text, from the byte `start` up to the byte `stop`. -/
structure Span where
  start : Nat
  stop : Nat
  deriving DecidableEq, Repr, Inhabited

namespace Span

/-- The empty span at a place. -/
def empty (place : Nat) : Span := ⟨place, place⟩

/-- The number of bytes covered. -/
def length (span : Span) : Nat := span.stop - span.start

/-- The characters covered, none if an end lies outside the text or within a character. -/
def chars (span : Span) (source : List Char) : List Char :=
  ((Text.dropBytes span.start source).bind (Text.takeBytes span.length)).getD []

/-- The text covered. -/
def text (span : Span) (source : String) : String := String.ofList (span.chars source.toList)

theorem chars_append (before covered after : List Char) :
    (Span.mk (Text.byteLength before) (Text.byteLength before + Text.byteLength covered)).chars
      (before ++ (covered ++ after)) = covered := by
  simp [chars, length, Text.dropBytes_append, Text.takeBytes_append]

end Span

end GraphClient
