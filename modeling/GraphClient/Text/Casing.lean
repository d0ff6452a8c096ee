/-! Names in the spelling that their place asks for. A schema spells its names as it likes; generated
code wants functions and fields in snake case and enum members in Pascal case, and may not use a
reserved word. Only ASCII letters have a case here: all other characters stay as they are. -/

namespace GraphClient.Casing

/-- Whether a capital between `previous` and `next` starts a word: it does after a small letter or a
digit, and as the last capital of a run that a small letter follows (`HTTPServer` is two words). -/
def startsWord (previous next : Option Char) : Bool :=
  match previous with
  | none => false
  | some p => p.isLower || p.isDigit || (p.isUpper && next.any Char.isLower)

/-- The snake case of the characters that follow `previous`. -/
def snakeFrom (previous : Option Char) : List Char → List Char
  | [] => []
  | c :: rest =>
      if c.isUpper then
        (if startsWord previous rest.head? then ['_', c.toLower] else [c.toLower]) ++
          snakeFrom (some c) rest
      else c :: snakeFrom (some c) rest

/-- `userID` becomes `user_id`. -/
def snake (name : String) : String := String.ofList (snakeFrom none name.toList)

/-- A word with a capital in front. The rest is made small if the word has no small letter. -/
def capitalise : List Char → List Char
  | [] => []
  | c :: rest =>
      c.toUpper :: if (c :: rest).any Char.isLower then rest else rest.map Char.toLower

/-- `ON_HOLD` becomes `OnHold`. -/
def pascal (name : String) : String :=
  String.ofList (((name.toList.splitOn '_').filter (!·.isEmpty)).flatMap capitalise)

/-- The words that generated code cannot use as plain names. -/
def reserved : List String :=
  ["as", "async", "await", "break", "const", "continue", "crate", "dyn", "else", "enum", "extern",
    "false", "fn", "for", "if", "impl", "in", "let", "loop", "match", "mod", "move", "mut", "pub",
    "ref", "return", "self", "Self", "static", "struct", "super", "trait", "true", "type",
    "unsafe", "use", "where", "while", "abstract", "become", "box", "do", "final", "macro",
    "override", "priv", "try", "typeof", "unsized", "virtual", "yield"]

/-- The reserved words that have no raw form. -/
def unescapable : List String := ["self", "Self", "super", "crate"]

/-- The name itself, or a spelling of it that is no reserved word. -/
def escape (name : String) : String :=
  if name ∈ unescapable then name ++ "_"
  else if name ∈ reserved then "r#" ++ name
  else name

end GraphClient.Casing
