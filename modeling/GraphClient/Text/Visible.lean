import GraphClient.Text.Digits
import GraphClient.Text.Characters
import GraphClient.Text.Unassigned

/-! Quoted text for people. Characters that cannot be seen, that would join the one before them, or that
no one has defined are written by their numbers, so that the text between the quotes is what it looks like. -/

namespace GraphClient.Text

/-- The ranges of control and format characters, of separators other than the space, and of characters
for private use (the general categories Cc, Cf, Co, Zl, Zp and Zs). -/
def invisibleRanges : List (Nat × Nat) :=
  [(0x0, 0x1F), (0x7F, 0xA0), (0xAD, 0xAD), (0x600, 0x605), (0x61C, 0x61C), (0x6DD, 0x6DD), (0x70F, 0x70F),
    (0x890, 0x891), (0x8E2, 0x8E2), (0x1680, 0x1680), (0x180E, 0x180E), (0x2000, 0x200F), (0x2028, 0x202F),
    (0x205F, 0x2064), (0x2066, 0x206F), (0x3000, 0x3000), (0xE000, 0xF8FF), (0xFEFF, 0xFEFF),
    (0xFFF9, 0xFFFB), (0x110BD, 0x110BD), (0x110CD, 0x110CD), (0x13430, 0x1343F), (0x1BCA0, 0x1BCA3),
    (0x1D173, 0x1D17A), (0xE0001, 0xE0001), (0xE0020, 0xE007F), (0xF0000, 0xFFFFD), (0x100000, 0x10FFFD)]

def isInvisible (c : Char) : Bool := inRanges invisibleRanges c

/-- A character within quotes. -/
def visibleChar (c : Char) : List Char :=
  if c = '"' ∨ c = '\\' then ['\\', c]
  else if c = '\n' then ['\\', 'n']
  else if c = '\r' then ['\\', 'r']
  else if c = '\t' then ['\\', 't']
  else if c.toNat = 0 then ['\\', '0']
  else if isInvisible c || isJoining c || isUnassigned c then
    ['\\', 'u', '\x7b'] ++ Nat.toDigits 16 c.toNat ++ ['\x7d']
  else [c]

/-- A text in quotes, for people. -/
def visible (s : String) : String := String.ofList ('"' :: s.toList.flatMap visibleChar ++ ['"'])

end GraphClient.Text
