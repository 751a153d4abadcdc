/-!
# Exact values of floating-point numbers

A finite number is a signed natural mantissa times a power of two.
-/

namespace ChipEight.Decimal

structure Binary where
  negative : Bool
  mantissa : Nat
  exponent : Int
  /-- The neighbour towards zero is only half as far away as the other one. -/
  narrowBelow : Bool
deriving DecidableEq, Repr

inductive Parts where
  | finite (b : Binary)
  | infinite (negative : Bool)
  | nan
deriving DecidableEq, Repr

/-- Reads the sign, the eleven bits of the exponent and the fifty-two of the fraction. -/
def Parts.ofBits (bits : UInt64) : Parts :=
  let negative := bits >>> 63 == 1
  let biased := ((bits >>> 52) &&& 0x7FF).toNat
  let fraction := (bits &&& 0xFFFFFFFFFFFFF).toNat
  if biased = 0x7FF then if fraction = 0 then .infinite negative else .nan
  else if biased = 0 then .finite ⟨negative, fraction, -1074, false⟩
  else
    .finite ⟨negative, 0x10000000000000 + fraction, (biased : Int) - 1075, fraction = 0 && 1 < biased⟩

def Parts.ofFloat (f : Float) : Parts := .ofBits f.toBits

namespace Binary

/-- The size as a quotient of naturals. -/
def quotient (b : Binary) : Nat × Nat :=
  (b.mantissa * Nat.pow 2 b.exponent.toNat, Nat.pow 2 (-b.exponent).toNat)

/-- The integer part; the fraction is cut off. -/
def truncate (b : Binary) : Int :=
  let size : Int := (b.quotient.1 / b.quotient.2 : Nat)
  if b.negative then -size else size

end Binary

end ChipEight.Decimal
