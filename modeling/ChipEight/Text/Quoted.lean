import ChipEight.Numeral

/-!
# Quoted texts

Texts in quotes, as they stand in the messages that list names. A text is put in single quotes unless it
holds some and no double quote; backslashes, the quote in use and everything invisible are escaped.
-/

namespace ChipEight.Text

/-- Controls, formats, separators other than the space, and private characters, Unicode 14. -/
def invisibleRanges : List (Nat × Nat) :=
  [(0x00, 0x1F), (0x7F, 0xA0), (0xAD, 0xAD), (0x600, 0x605), (0x61C, 0x61C), (0x6DD, 0x6DD),
   (0x70F, 0x70F), (0x890, 0x891), (0x8E2, 0x8E2), (0x1680, 0x1680), (0x180E, 0x180E), (0x2000, 0x200F),
   (0x2028, 0x202F), (0x205F, 0x2064), (0x2066, 0x206F), (0x3000, 0x3000), (0xD800, 0xF8FF),
   (0xFEFF, 0xFEFF), (0xFFF9, 0xFFFB), (0x110BD, 0x110BD), (0x110CD, 0x110CD), (0x13430, 0x13438),
   (0x1BCA0, 0x1BCA3), (0x1D173, 0x1D17A), (0xE0001, 0xE0001), (0xE0020, 0xE007F), (0xF0000, 0xFFFFD),
   (0x100000, 0x10FFFD)]

def isInvisible (c : Char) : Bool := invisibleRanges.any fun r => r.1 ≤ c.toNat && c.toNat ≤ r.2

/-- A code point in two, four or eight small digits. -/
def escapedCode (n : Nat) : List Char :=
  let digits := Nat.toDigits 16 n
  if n < 0x100 then '\\' :: 'x' :: Numeral.padded 2 false digits
  else if n < 0x10000 then '\\' :: 'u' :: Numeral.padded 4 false digits
  else '\\' :: 'U' :: Numeral.padded 8 false digits

def escaped (quote c : Char) : List Char :=
  if c = quote ∨ c = '\\' then ['\\', c]
  else if c = '\n' then ['\\', 'n']
  else if c = '\r' then ['\\', 'r']
  else if c = '\t' then ['\\', 't']
  else if isInvisible c then escapedCode c.toNat
  else [c]

def single : Char := '\x27'

def double : Char := '\x22'

def quoteFor (cs : List Char) : Char := if single ∈ cs ∧ double ∉ cs then double else single

def quoted (s : String) : String :=
  let quote := quoteFor s.toList
  String.ofList (quote :: s.toList.flatMap (escaped quote) ++ [quote])

/-- Quoted texts in brackets. -/
def quotedList (texts : List String) : String := "[" ++ ", ".intercalate (texts.map quoted) ++ "]"

end ChipEight.Text
