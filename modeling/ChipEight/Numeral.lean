/-!
# Numerals

Texts of integers: hexadecimal with a least width, and decimal with thousands separators.
-/

namespace ChipEight.Numeral

/-! ## Padding -/

/-- The sign of a negative number counts towards the width and stands before the padding. -/
def padded (width : Nat) (negative : Bool) (digits : List Char) : List Char :=
  let sign := if negative then ['-'] else []
  sign ++ List.replicate (width - sign.length - digits.length) '0' ++ digits

/-! ## Hexadecimal -/

def hexDigits (n : Nat) : List Char := (Nat.toDigits 16 n).map Char.toUpper

/-- Upper-case hexadecimal, filled with zeros up to the width. -/
def hex (width : Nat) (z : Int) : String :=
  String.ofList (padded width (z < 0) (hexDigits z.natAbs))

/-! ## Thousands separators -/

/-- Takes the digits from the last to the first. -/
def groupReversed : List Char → List Char
  | a :: b :: c :: d :: rest => a :: b :: c :: ',' :: groupReversed (d :: rest)
  | short => short

def groupDigits (digits : List Char) : List Char := (groupReversed digits.reverse).reverse

def grouped (z : Int) : String :=
  String.ofList (padded 0 (z < 0) (groupDigits (Nat.toDigits 10 z.natAbs)))

end ChipEight.Numeral
