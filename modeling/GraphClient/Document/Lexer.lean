import GraphClient.Document.Token

/-! Cutting a query document into tokens. Blanks, commas, byte order marks and comments separate tokens
and are dropped; everything else belongs to exactly one token. A character that no token starts with
gives one invalid token for every byte of it.

Each scanner splits a text into what it takes and what it leaves, so the taken parts and the dropped
ones put together are the text again (`scan_append`, `splitIgnored_append`), and every step takes at
least one character (`scan_length_lt`). -/

namespace GraphClient.Lexer

def isBlank (c : Char) : Bool :=
  c == ' ' || c == '\t' || c == '\r' || c == '\n' || c == ',' || c == '\ufeff'

/-- The ignored characters in front of a text, and the rest. A comment goes on up to its line feed. -/
def splitIgnored (inComment : Bool) : List Char → List Char × List Char
  | [] => ([], [])
  | c :: rest =>
      if inComment then
        let (ignored, left) := splitIgnored (c != '\n') rest
        (c :: ignored, left)
      else if c == '#' || isBlank c then
        let (ignored, left) := splitIgnored (c == '#') rest
        (c :: ignored, left)
      else ([], c :: rest)

theorem splitIgnored_append (inComment : Bool) (cs : List Char) :
    (splitIgnored inComment cs).1 ++ (splitIgnored inComment cs).2 = cs := by
  induction cs generalizing inComment with
  | nil => rfl
  | cons c rest ih =>
      simp only [splitIgnored]
      split
      · simp [ih]
      · split
        · simp [ih]
        · rfl

theorem splitIgnored_length_le (inComment : Bool) (cs : List Char) :
    (splitIgnored inComment cs).2.length ≤ cs.length := by
  have h := congrArg List.length (splitIgnored_append inComment cs)
  rw [List.length_append] at h
  omega

/-- What the first token of a text is, the characters it takes and those it leaves. -/
structure Lexeme where
  kind : TokenKind
  taken : List Char
  left : List Char

def isNameStart (c : Char) : Bool := c.isAlpha || c == '_'

def isNamePart (c : Char) : Bool := c.isAlphanum || c == '_'

/-- A name runs on as far as it can; then it is a keyword or not. -/
def scanName (cs : List Char) : Lexeme :=
  let word := cs.takeWhile isNamePart
  let kind := match Keyword.ofText? (String.ofList word) with
    | some k => .keyword k
    | none => .name
  ⟨kind, word, cs.dropWhile isNamePart⟩

/-- The point and the digits after it; a point without a digit is left. -/
def splitFraction : List Char → List Char × List Char
  | '.' :: d :: rest =>
      if d.isDigit then ('.' :: d :: rest.takeWhile Char.isDigit, rest.dropWhile Char.isDigit)
      else ([], '.' :: d :: rest)
  | cs => ([], cs)

def isSign (c : Char) : Bool := c == '+' || c == '-'

/-- The sign in front of a text, if it is one of those that `accepts` accepts. -/
def splitSign (accepts : Char → Bool) : List Char → List Char × List Char
  | c :: rest => if accepts c then ([c], rest) else ([], c :: rest)
  | [] => ([], [])

/-- The exponent with its mark, its sign and its digits, of which there may be none. -/
def splitExponent : List Char → List Char × List Char
  | c :: rest =>
      if c == 'e' || c == 'E' then
        let (sign, digits) := splitSign isSign rest
        (c :: sign ++ digits.takeWhile Char.isDigit, digits.dropWhile Char.isDigit)
      else ([], c :: rest)
  | [] => ([], [])

/-- A number has digits after its sign, and is whole if neither a fraction nor an exponent follows. -/
def scanNumber (cs : List Char) : Lexeme :=
  let (sign, rest) := splitSign (· == '-') cs
  let whole := rest.takeWhile Char.isDigit
  if whole.isEmpty then ⟨.invalid, sign, rest⟩
  else
    let (fraction, rest) := splitFraction (rest.dropWhile Char.isDigit)
    let (exponent, rest) := splitExponent rest
    let kind := if fraction.isEmpty && exponent.isEmpty then .int else .float
    ⟨kind, sign ++ whole ++ fraction ++ exponent, rest⟩

/-- A quoted string from behind its first quote. A backslash takes the character after it along; a
line feed or the end of the text breaks the string off. -/
def scanQuoted : List Char → Lexeme
  | [] => ⟨.invalid, [], []⟩
  | '"' :: rest => ⟨.string, ['"'], rest⟩
  | '\n' :: rest => ⟨.invalid, [], '\n' :: rest⟩
  | '\\' :: c :: rest =>
      let body := scanQuoted rest
      ⟨body.kind, '\\' :: c :: body.taken, body.left⟩
  | c :: rest =>
      let body := scanQuoted rest
      ⟨body.kind, c :: body.taken, body.left⟩

/-- A block string from behind its three quotes. Three quotes behind a backslash do not close it. -/
def scanBlock : List Char → Lexeme
  | [] => ⟨.invalid, [], []⟩
  | '"' :: '"' :: '"' :: rest => ⟨.blockString, ['"', '"', '"'], rest⟩
  | '\\' :: '"' :: '"' :: '"' :: rest =>
      let body := scanBlock rest
      ⟨body.kind, '\\' :: '"' :: '"' :: '"' :: body.taken, body.left⟩
  | c :: rest =>
      let body := scanBlock rest
      ⟨body.kind, c :: body.taken, body.left⟩

/-- The first token of a text that starts with `c`. -/
def scan (c : Char) (rest : List Char) : Lexeme :=
  match Mark.ofChar? c with
  | some m => ⟨.mark m, [c], rest⟩
  | none =>
      if c == '.' then
        match rest with
        | '.' :: '.' :: left => ⟨.mark .spread, ['.', '.', '.'], left⟩
        | left => ⟨.invalid, ['.'], left⟩
      else if c == '"' then
        match rest with
        | '"' :: '"' :: block =>
            let body := scanBlock block
            ⟨body.kind, '"' :: '"' :: '"' :: body.taken, body.left⟩
        | quoted =>
            let body := scanQuoted quoted
            ⟨body.kind, '"' :: body.taken, body.left⟩
      else if c == '-' || c.isDigit then scanNumber (c :: rest)
      else if isNameStart c then scanName (c :: rest)
      else ⟨.invalid, [c], rest⟩

theorem splitFraction_append (cs : List Char) : (splitFraction cs).1 ++ (splitFraction cs).2 = cs := by
  unfold splitFraction
  split
  · split
    · simp [List.takeWhile_append_dropWhile]
    · rfl
  · rfl

theorem splitSign_append (accepts : Char → Bool) (cs : List Char) :
    (splitSign accepts cs).1 ++ (splitSign accepts cs).2 = cs := by
  unfold splitSign
  split
  · split <;> rfl
  · rfl

theorem splitExponent_append (cs : List Char) : (splitExponent cs).1 ++ (splitExponent cs).2 = cs := by
  unfold splitExponent
  split
  · split
    · rename_i c rest _
      simp only [List.cons_append, List.append_assoc, List.takeWhile_append_dropWhile, splitSign_append]
    · rfl
  · rfl

theorem scanName_append (cs : List Char) : (scanName cs).taken ++ (scanName cs).left = cs := by
  simp [scanName, List.takeWhile_append_dropWhile]

theorem scanNumber_append (cs : List Char) : (scanNumber cs).taken ++ (scanNumber cs).left = cs := by
  simp only [scanNumber]
  split
  · exact splitSign_append _ cs
  · simp only [List.append_assoc, splitExponent_append, splitFraction_append,
      List.takeWhile_append_dropWhile, splitSign_append]

theorem scanQuoted_append (cs : List Char) : (scanQuoted cs).taken ++ (scanQuoted cs).left = cs := by
  fun_induction scanQuoted cs <;> simp_all +zetaDelta

theorem scanBlock_append (cs : List Char) : (scanBlock cs).taken ++ (scanBlock cs).left = cs := by
  fun_induction scanBlock cs <;> simp_all +zetaDelta

theorem scan_append (c : Char) (rest : List Char) :
    (scan c rest).taken ++ (scan c rest).left = c :: rest := by
  unfold scan
  split
  · rfl
  · split
    · rename_i h
      simp only [beq_iff_eq] at h
      subst h
      split <;> rfl
    · split
      · rename_i h
        simp only [beq_iff_eq] at h
        subst h
        split
        · simp [scanBlock_append]
        · simp [scanQuoted_append]
      · split
        · exact scanNumber_append _
        · split
          · exact scanName_append _
          · rfl

/-- Every token takes at least one character. -/
theorem scan_length_lt (c : Char) (rest : List Char) : (scan c rest).left.length < (c :: rest).length := by
  have key : (scan c rest).taken ≠ [] := by
    unfold scan
    split
    · simp
    · split
      · split <;> simp
      · split
        · split <;> simp
        · split
          · rename_i h
            simp only [scanNumber, splitSign]
            by_cases hc : c = '-'
            · subst hc
              simp only [beq_self_eq_true, if_true]
              split <;> simp
            · have hd : c.isDigit = true := by simpa [hc] using h
              simp [hc, hd]
          · split
            · rename_i h
              have hp : isNamePart c = true := by
                simp only [isNameStart, isNamePart, Char.isAlphanum, Bool.or_eq_true] at h ⊢
                exact h.elim (fun ha => .inl (.inl ha)) .inr
              simp [scanName, hp]
            · simp
  have h := congrArg List.length (scan_append c rest)
  rw [List.length_append] at h
  have := List.length_pos_iff.mpr key
  omega

/-- One invalid token for each of `n` bytes. -/
def invalidBytes (place : Nat) : Nat → List Token
  | 0 => []
  | n + 1 => ⟨.invalid, ⟨place, place + 1⟩, ""⟩ :: invalidBytes (place + 1) n

/-- The tokens of a lexeme that starts at a place: itself, or its bytes if it is a character outside
ASCII. -/
def tokensOf (place : Nat) (lexeme : Lexeme) : List Token :=
  match lexeme.kind, lexeme.taken with
  | .invalid, [c] =>
      if c.utf8Size = 1 then [⟨.invalid, ⟨place, place + 1⟩, String.singleton c⟩]
      else invalidBytes place c.utf8Size
  | kind, taken => [⟨kind, ⟨place, place + Text.byteLength taken⟩, String.ofList taken⟩]

/-- The tokens of a text that starts at a place, with the end of the text as the last of them. -/
def tokensFrom (place : Nat) (cs : List Char) : List Token :=
  let ignored := (splitIgnored false cs).1
  let start := place + Text.byteLength ignored
  match _h : (splitIgnored false cs).2 with
  | [] => [Token.finish start]
  | c :: rest =>
      let lexeme := scan c rest
      tokensOf start lexeme ++ tokensFrom (start + Text.byteLength lexeme.taken) lexeme.left
termination_by cs.length
decreasing_by
  have h₁ := splitIgnored_length_le false cs
  rw [_h] at h₁
  exact Nat.lt_of_lt_of_le (scan_length_lt c rest) h₁

end GraphClient.Lexer

namespace GraphClient

/-- The tokens of a document, the end last. -/
def tokenize (source : String) : List Token := Lexer.tokensFrom 0 source.toList

end GraphClient
