import GraphClient.Document.Lexer
import GraphClient.Text.Casing
import Mathlib

/-! Words and identifiers. Names of a schema are words, and so is a word in snake case or with
something behind it that a word may hold. A word is an identifier of generated code just if it is no
keyword and no lone underscore, and escaping takes care of the keywords (`isIdentifier_escape`). Two
words are escaped to one name only if they are equal or one is a keyword without a raw form and the
other one that keyword with an underscore (`escape_eq_escape_iff`). -/

namespace GraphClient

open Lexer (isNameStart isNamePart)

/-- That a name is a letter or an underscore, followed by letters, digits and underscores. -/
def IsWord (name : String) : Prop :=
  name.toList.head?.any isNameStart = true ∧ name.toList.all isNamePart = true

instance (name : String) : Decidable (IsWord name) :=
  inferInstanceAs (Decidable (name.toList.head?.any isNameStart = true ∧ name.toList.all isNamePart = true))

namespace IsWord

variable {name rest : String}

theorem exists_cons (hname : IsWord name) : ∃ c rest, name.toList = c :: rest ∧ isNameStart c = true := by
  obtain ⟨hstart, -⟩ := hname
  cases hchars : name.toList with
  | nil =>
      rw [hchars] at hstart
      cases hstart
  | cons c rest =>
      rw [hchars] at hstart
      exact ⟨c, rest, rfl, hstart⟩

theorem append (hname : IsWord name) (hrest : rest.toList.all isNamePart = true) : IsWord (name ++ rest) := by
  constructor
  · obtain ⟨c, cs, hchars, hc⟩ := hname.exists_cons
    rw [String.toList_append, hchars]
    exact hc
  · rw [String.toList_append, List.all_append, hname.2, hrest, Bool.and_self]

/-- A word holds no number sign, which marks raw names. -/
theorem ne_raw (hname : IsWord name) (other : String) : name ≠ "r#" ++ other := by
  rintro rfl
  have hmark : '#' ∈ ("r#" ++ other).toList := by simp [String.toList_append]
  exact absurd (List.all_eq_true.1 hname.2 '#' hmark) (by decide)

end IsWord

/-- What a separator divides has only other characters of the text. -/
theorem mem_of_mem_splitOn {cs l : List Char} {c d : Char} (hl : l ∈ cs.splitOn c) (hd : d ∈ l) :
    d ∈ cs ∧ d ≠ c := by
  induction cs generalizing l with
  | nil =>
      rw [List.splitOn_nil, List.mem_singleton] at hl
      rw [hl] at hd
      cases hd
  | cons first rest ih =>
      have hrest {l' : List Char} (hl' : l' ∈ rest.splitOn c) (hd' : d ∈ l') : d ∈ first :: rest ∧ d ≠ c :=
        (ih hl' hd').imp_left (List.mem_cons_of_mem _)
      rw [List.splitOn_cons_eq_if_modifyHead] at hl
      split at hl
      · rcases List.mem_cons.1 hl with rfl | hl
        · cases hd
        · exact hrest hl hd
      · rename_i hne
        obtain ⟨l', others, heq⟩ := List.exists_cons_of_ne_nil (List.splitOn_ne_nil c rest)
        rw [heq, List.modifyHead_cons] at hl
        rcases List.mem_cons.1 hl with rfl | hl
        · rcases List.mem_cons.1 hd with rfl | hd
          · exact ⟨List.mem_cons_self, by simpa using hne⟩
          · exact hrest (heq ▸ List.mem_cons_self) hd
        · exact hrest (heq ▸ List.mem_cons_of_mem _ hl) hd

namespace Casing

theorem isAlpha_toLower {c : Char} (hc : c.isUpper = true) : c.toLower.isAlpha = true := by
  rw [Char.isAlpha_toLower_eq_isAlpha, Char.isAlpha, hc, Bool.true_or]

theorem isNameStart_toLower {c : Char} (hc : c.isUpper = true) : isNameStart c.toLower = true := by
  rw [isNameStart, isAlpha_toLower hc, Bool.true_or]

theorem isNamePart_of_isNameStart {c : Char} (hc : isNameStart c = true) : isNamePart c = true := by
  simp only [isNameStart, isNamePart, Char.isAlphanum, Bool.or_eq_true] at hc ⊢
  tauto

theorem isNamePart_snakeFrom {previous : Option Char} {cs : List Char} (hcs : ∀ c ∈ cs, isNamePart c = true) :
    ∀ c ∈ snakeFrom previous cs, isNamePart c = true := by
  induction cs generalizing previous with
  | nil => exact List.forall_mem_nil _
  | cons c rest ih =>
      obtain ⟨hc, hrest⟩ := List.forall_mem_cons.1 hcs
      rw [snakeFrom]
      split
      · rename_i hupper
        have hlower := isNamePart_of_isNameStart (isNameStart_toLower hupper)
        rw [List.forall_mem_append]
        refine ⟨?_, ih hrest⟩
        split
        · exact List.forall_mem_cons.2 ⟨by decide, List.forall_mem_singleton.2 hlower⟩
        · exact List.forall_mem_singleton.2 hlower
      · exact List.forall_mem_cons.2 ⟨hc, ih hrest⟩

/-- The first character stays, or is made small. -/
theorem snakeFrom_none_cons (c : Char) (rest : List Char) :
    snakeFrom none (c :: rest) = (if c.isUpper = true then c.toLower else c) :: snakeFrom (some c) rest := by
  rw [snakeFrom]
  split <;> rfl

/-- A word in snake case is a word. -/
theorem isWord_snake {name : String} (hname : IsWord name) : IsWord (snake name) := by
  rw [IsWord, snake, String.toList_ofList]
  refine ⟨?_, List.all_eq_true.2 (isNamePart_snakeFrom (List.all_eq_true.1 hname.2))⟩
  obtain ⟨c, rest, hchars, hc⟩ := hname.exists_cons
  rw [hchars, snakeFrom_none_cons, List.head?_cons, Option.any_some]
  split
  · exact isNameStart_toLower (by assumption)
  · exact hc

theorem snakeFrom_eq_nil_iff {previous : Option Char} {cs : List Char} :
    snakeFrom previous cs = [] ↔ cs = [] := by
  constructor
  · intro hsnake
    cases cs with
    | nil => rfl
    | cons c rest =>
        rw [snakeFrom] at hsnake
        split at hsnake
        · split at hsnake <;> cases hsnake
        · cases hsnake
  · rintro rfl
    rfl

/-- Only the lone underscore itself is it in snake case. -/
theorem snake_eq_underscore_iff {name : String} : snake name = "_" ↔ name = "_" := by
  constructor
  · intro hsnake
    have hchars : snakeFrom none name.toList = ['_'] := by
      rw [← String.toList_ofList (l := snakeFrom none name.toList)]
      exact congrArg String.toList hsnake
    rw [← String.toList_inj]
    cases hname : name.toList with
    | nil =>
        rw [hname] at hchars
        cases hchars
    | cons c rest =>
        rw [hname, snakeFrom_none_cons] at hchars
        obtain ⟨hc, hrest⟩ := List.cons.inj hchars
        split at hc
        · rename_i hupper
          have hlower := isAlpha_toLower hupper
          rw [hc] at hlower
          exact absurd hlower (by decide)
        · rw [hc, snakeFrom_eq_nil_iff.1 hrest]
          rfl
  · rintro rfl
    rfl

end Casing

/-- The keywords of the language of generated code, those that it only keeps for later included. -/
def keywords : List String :=
  ["abstract", "as", "async", "await", "become", "box", "break", "const", "continue", "crate",
    "do", "dyn", "else",
    "enum", "extern", "false", "final", "fn", "for", "if", "impl", "in", "let", "loop", "macro",
    "match", "mod", "move",
    "mut", "override", "priv", "pub", "ref", "return", "self", "Self", "static", "struct",
    "super", "trait", "true",
    "try", "type", "typeof", "unsafe", "unsized", "use", "virtual", "where", "while", "yield"]

/-- What may not be written as a raw name. -/
def rawless : List String := ["_", "crate", "self", "Self", "super"]

/-- That generated code may have something under a name: the name is a word that is neither a keyword
nor a lone underscore, or it is the raw form of a word. -/
inductive IsIdentifier (name : String) : Prop
  | plain (hword : IsWord name) (hname : name ≠ "_") (hkeyword : name ∉ keywords)
  | raw {word : String} (hword : IsWord word) (hname : name = "r#" ++ word) (hrawless : word ∉ rawless)

theorem mem_keywords_iff {name : String} : name ∈ keywords ↔ name ∈ Casing.reserved := by
  have hforth : ∀ k ∈ keywords, k ∈ Casing.reserved := by decide
  have hback : ∀ k ∈ Casing.reserved, k ∈ keywords := by decide
  exact ⟨hforth name, hback name⟩

theorem not_isIdentifier_underscore : ¬IsIdentifier "_" := by
  rintro (⟨-, hname, -⟩ | ⟨hword, hname, -⟩)
  · exact hname rfl
  · exact IsWord.ne_raw (by decide) _ hname

namespace Casing

variable {name other : String}

theorem reserved_of_unescapable (hname : name ∈ unescapable) : name ∈ reserved :=
  (by decide : ∀ k ∈ unescapable, k ∈ reserved) name hname

theorem escape_of_reserved (hname : name ∈ reserved) (hun : name ∉ unescapable) :
    escape name = "r#" ++ name := by
  rw [escape, if_neg hun, if_pos hname]

theorem escape_of_free (hname : name ∉ reserved) : escape name = name := by
  rw [escape, if_neg (mt reserved_of_unescapable hname), if_neg hname]

/-- What the escaping of a name may come to. -/
theorem escape_eq_iff (hother : IsWord other) (hfree : other ∉ reserved) :
    escape name = other ↔ name = other ∨ (name ∈ unescapable ∧ other = name ++ "_") := by
  rw [escape]
  split
  · rename_i hname
    have hne : name ≠ other := fun heq => hfree (heq ▸ reserved_of_unescapable hname)
    simp [hne, hname, eq_comm]
  · rename_i hname
    split
    · rename_i hreserved
      have hne : name ≠ other := fun heq => hfree (heq ▸ hreserved)
      simp [hne, hname, (hother.ne_raw name).symm]
    · simp [hname]

/-- A keyword without a raw form and the underscore that is put behind it are no keyword. -/
theorem escaped_of_unescapable (hname : name ∈ unescapable) :
    escape name = name ++ "_" ∧ IsWord (name ++ "_") ∧ name ++ "_" ∉ reserved := by
  have hwords : ∀ k ∈ unescapable, IsWord k := by decide
  have hfree : ∀ k ∈ unescapable, k ++ "_" ∉ reserved := by decide
  exact ⟨if_pos hname, (hwords name hname).append (by decide), hfree name hname⟩

theorem escape_eq_escape_iff (hname : IsWord name) (hother : IsWord other) :
    escape name = escape other ↔
      name = other ∨ (name ∈ unescapable ∧ other = name ++ "_") ∨
        (other ∈ unescapable ∧ name = other ++ "_") := by
  -- the other name comes out with an underscore behind it, as a raw name, or as it is
  by_cases hun : other ∈ unescapable
  · obtain ⟨hescape, hword, hfree⟩ := escaped_of_unescapable hun
    have hends : ∀ k ∈ unescapable, ∀ k' ∈ unescapable, k ≠ k' ++ "_" := by decide
    rw [hescape, escape_eq_iff hword hfree]
    constructor
    · rintro (rfl | ⟨hin, heq⟩)
      · exact .inr (.inr ⟨hun, rfl⟩)
      · exact .inl (String.append_left_inj "_" |>.1 heq).symm
    · rintro (rfl | ⟨hin, rfl⟩ | ⟨-, rfl⟩)
      · exact .inr ⟨hun, rfl⟩
      · exact absurd rfl (hends _ hun _ hin)
      · exact .inl rfl
  · by_cases hreserved : other ∈ reserved
    · have hends : ∀ k ∈ unescapable, k ++ "_" ∉ reserved := by decide
      rw [escape_of_reserved hreserved hun, escape]
      split
      · rename_i hin
        have hword := (escaped_of_unescapable hin).2.1
        have hne : name ≠ other := fun heq => hun (heq ▸ hin)
        have hlonger : other ≠ name ++ "_" := fun heq => hends name hin (heq ▸ hreserved)
        simp [hword.ne_raw other, hne, hlonger, hun]
      · rename_i hin
        split
        · simp [hin, hun]
        · rename_i hplain
          have hne : name ≠ other := fun heq => hplain (heq ▸ hreserved)
          simp [hname.ne_raw other, hne, hin, hun]
    · rw [escape_of_free hreserved, escape_eq_iff hother hreserved]
      simp [hun]

/-- Escaping makes an identifier of every word but the lone underscore. -/
theorem isIdentifier_escape (hname : IsWord name) : IsIdentifier (escape name) ↔ name ≠ "_" := by
  constructor
  · rintro hidentifier rfl
    exact not_isIdentifier_underscore hidentifier
  · intro hne
    rw [escape]
    split
    · rename_i hin
      obtain ⟨-, hword, hfree⟩ := escaped_of_unescapable hin
      have hlone : ∀ k ∈ unescapable, k ++ "_" ≠ "_" := by decide
      exact .plain hword (hlone name hin) (mt mem_keywords_iff.1 hfree)
    · rename_i hun
      split
      · refine .raw hname rfl fun hrawless => ?_
        have hall : ∀ k ∈ rawless, k = "_" ∨ k ∈ unescapable := by decide
        exact (hall name hrawless).elim hne hun
      · rename_i hreserved
        exact .plain hname hne (mt mem_keywords_iff.1 hreserved)

end Casing

end GraphClient
