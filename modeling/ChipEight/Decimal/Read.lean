import ChipEight.Decimal.Fixed
import ChipEight.Decimal.Shortest

/-!
# Reading decimals

The floating-point number nearest to a decimal text.
-/

namespace ChipEight.Decimal

/-! ## Rounding -/

/-- A mantissa of at least fifty-three bits, or of as many as there are, would have this exponent. -/
def binaryExponent (num den : Nat) : Int :=
  let guess : Int := (num.log2 : Int) - den.log2 - 53
  let fits := num * Nat.pow 2 (-guess).toNat < den * Nat.pow 2 guess.toNat * Nat.pow 2 53
  max (-1074) (if fits then guess else guess + 1)

/-- The bits of the nearest number; of two equally near the even one. A mantissa that grows by rounding
carries into the exponent, and the largest exponent stands for infinity. -/
def nearestBits (num den : Nat) : Nat :=
  if num = 0 then 0
  else
    let k := binaryExponent num den
    let mantissa := roundHalfEven (num * Nat.pow 2 (-k).toNat) (den * Nat.pow 2 k.toNat)
    min ((k + 1074).toNat * 0x10000000000000 + mantissa) 0x7FF0000000000000

/-- Exponents beyond all floating-point numbers are cut down. -/
def Scaled.nearest (d : Scaled) : Float :=
  let least : Int := -400 - (Nat.toDigits 10 d.digits).length
  let e := max least (min 400 d.exponent)
  .ofBits (.ofNat (nearestBits (d.digits * Nat.pow 10 e.toNat) (Nat.pow 10 (-e).toNat)))

/-! ## Texts -/

def naturalOf (digits : List Char) : Nat := digits.foldl (fun n d => 10 * n + (d.toNat - 48)) 0

/-- An exponent, which may be missing. -/
def readExponent? : List Char → Option Int
  | [] => some 0
  | mark :: cs =>
    if mark = 'e' || mark = 'E' then
      let (negative, ds) := match cs with
        | '-' :: ds => (true, ds)
        | '+' :: ds => (false, ds)
        | ds => (false, ds)
      if ds.isEmpty || !ds.all Char.isDigit then none
      else some (if negative then -(naturalOf ds : Int) else naturalOf ds)
    else none

/-- Digits with or without a point and an exponent, but no sign. -/
def readScaled? (cs : List Char) : Option Scaled :=
  let whole := cs.takeWhile Char.isDigit
  let rest := cs.drop whole.length
  let (fraction, rest) := match rest with
    | '.' :: ds => let f := ds.takeWhile Char.isDigit; (f, ds.drop f.length)
    | _ => ([], rest)
  if whole.isEmpty && fraction.isEmpty then none
  else (readExponent? rest).map fun e => ⟨naturalOf (whole ++ fraction), e - fraction.length⟩

def readUnsigned? (cs : List Char) : Option Float := (readScaled? cs).map (·.nearest)

end ChipEight.Decimal
