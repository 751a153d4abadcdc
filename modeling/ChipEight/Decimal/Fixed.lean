import ChipEight.Decimal.Binary
import ChipEight.Numeral

/-!
# Decimals with a fixed number of places

The exact value is rounded, and a half goes to the even neighbour.
-/

namespace ChipEight.Decimal

/-- The integer nearest to a quotient; of two equally near the even one. -/
def roundHalfEven (num den : Nat) : Nat :=
  let floor := num / den
  match compare (2 * (num % den)) den with
  | .lt => floor
  | .gt => floor + 1
  | .eq => if floor % 2 = 0 then floor else floor + 1

/-- How a number with fixed places is written. -/
structure FixedFormat where
  places : Nat
  /-- Thousands are set apart by commas. -/
  grouped : Bool := false
  /-- Filled with blanks on the left. -/
  width : Nat := 0
deriving DecidableEq, Repr

def FixedFormat.digits (fmt : FixedFormat) (b : Binary) : List Char :=
  let (num, den) := b.quotient
  let scaled := roundHalfEven (num * Nat.pow 10 fmt.places) den
  let ds := Numeral.padded (fmt.places + 1) false (Nat.toDigits 10 scaled)
  let whole := ds.take (ds.length - fmt.places)
  let whole := if fmt.grouped then Numeral.groupDigits whole else whole
  if fmt.places = 0 then whole else whole ++ '.' :: ds.drop (ds.length - fmt.places)

/-- The sign is kept also where all digits are zero. -/
def FixedFormat.text (fmt : FixedFormat) (f : Float) : String :=
  let body := match Parts.ofFloat f with
    | .finite b => (if b.negative then ['-'] else []) ++ fmt.digits b
    | .infinite negative => (if negative then "-inf" else "inf").toList
    | .nan => "nan".toList
  String.ofList (List.replicate (fmt.width - body.length) ' ' ++ body)

end ChipEight.Decimal
