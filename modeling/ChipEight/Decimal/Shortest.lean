import ChipEight.Decimal.Binary
import ChipEight.Numeral

/-!
# Shortest decimals

The fewest digits that read back to the same floating-point number, and how they are laid out.
-/

namespace ChipEight.Decimal

/-- `digits` times ten to the `exponent`. -/
structure Scaled where
  digits : Nat
  exponent : Int
deriving DecidableEq, Repr

/-! ## Which digits -/

/-- Compares `a * 10 ^ i` with `m * 2 ^ j`. -/
def compareScaled (a : Nat) (i : Int) (m : Nat) (j : Int) : Ordering :=
  compare (a * Nat.pow 10 i.toNat * Nat.pow 2 (-j).toNat)
    (m * Nat.pow 2 j.toNat * Nat.pow 10 (-i).toNat)

/-- The decimal lies among the reals that round to the number. The ends belong to the numbers with
an even mantissa. -/
def Binary.readsBack (b : Binary) (d : Scaled) : Bool :=
  let below := 4 * b.mantissa - (if b.narrowBelow then 1 else 2)
  let above := 4 * b.mantissa + 2
  let low := compareScaled d.digits d.exponent below (b.exponent - 2)
  let high := compareScaled d.digits d.exponent above (b.exponent - 2)
  if b.mantissa % 2 = 0 then low != .lt && high != .gt else low == .gt && high == .lt

/-- The least power of ten above a positive number. -/
def Binary.scale (b : Binary) : Int :=
  let (num, den) := b.quotient
  let guess : Int := (Nat.toDigits 10 num).length - (Nat.toDigits 10 den).length
  if num * Nat.pow 10 (-guess).toNat < den * Nat.pow 10 guess.toNat then guess else guess + 1

/-- The multiples of a power of ten next to the number that read back to it; of two the nearer, and
of two equally near the even one. -/
def Binary.nearestOn? (b : Binary) (exponent : Int) : Option Scaled :=
  let (num, den) := b.quotient
  let num := num * Nat.pow 10 (-exponent).toNat
  let den := den * Nat.pow 10 exponent.toNat
  let floor := num / den
  let lower : Scaled := ⟨floor, exponent⟩
  let upper : Scaled := ⟨floor + 1, exponent⟩
  match b.readsBack lower, b.readsBack upper with
  | true, false => some lower
  | false, true => some upper
  | false, false => none
  | true, true =>
      match compare (2 * num) ((2 * floor + 1) * den) with
      | .lt => some lower
      | .gt => some upper
      | .eq => some (if floor % 2 = 0 then lower else upper)

/-- Seventeen digits always suffice; the exact value stands behind the search. -/
def Binary.shortest (b : Binary) : Scaled :=
  let found := (List.range' 1 17).findSome? fun (n : Nat) => b.nearestOn? (b.scale - n)
  found.getD ⟨b.mantissa * Nat.pow 2 b.exponent.toNat * Nat.pow 5 (-b.exponent).toNat,
    -(-b.exponent).toNat⟩

/-! ## Layout -/

def withoutTrailingZeros (digits : List Char) : List Char :=
  (digits.reverse.dropWhile (· == '0')).reverse

def zeros (n : Int) : List Char := List.replicate n.toNat '0'

/-- The sign and at least two digits. -/
def exponentText (e : Int) : List Char :=
  (if e < 0 then '-' else '+') :: Numeral.padded 2 false (Nat.toDigits 10 e.natAbs)

/-- Positional from `0.0001` up to below `10 ^ 16`, with at least one digit on either side of the
point; scientific beyond. `point` counts the digits before the point. -/
def layout (digits : List Char) (point : Int) : List Char :=
  if -4 < point ∧ point ≤ 16 then
    if point ≤ 0 then '0' :: '.' :: zeros (-point) ++ digits
    else
      let whole := digits.take point.toNat ++ zeros (point - digits.length)
      let fraction := digits.drop point.toNat
      whole ++ '.' :: (if fraction = [] then ['0'] else fraction)
  else
    let mantissa := match digits with
      | [d] => [d]
      | d :: ds => d :: '.' :: ds
      | [] => []
    mantissa ++ 'e' :: exponentText (point - 1)

def Binary.text (b : Binary) : String :=
  let sign := if b.negative then ['-'] else []
  if b.mantissa = 0 then String.ofList (sign ++ ['0', '.', '0'])
  else
    let d := b.shortest
    let digits := Nat.toDigits 10 d.digits
    String.ofList (sign ++ layout (withoutTrailingZeros digits) (digits.length + d.exponent))

/-- The shortest text of a floating-point number. -/
def shortestText (f : Float) : String :=
  match Parts.ofFloat f with
  | .finite b => b.text
  | .infinite negative => if negative then "-inf" else "inf"
  | .nan => "nan"

end ChipEight.Decimal
