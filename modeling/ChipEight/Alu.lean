import ChipEight.Word

/-!
# Arithmetic and logic on bytes

Each operation gives a result and a flag. The flag is the carry of a sum, the absence of a borrow
of a difference, and the bit that a shift drops.
-/

namespace ChipEight

inductive AluOp where
  | or | and | xor | add | sub | subReversed | shiftRight | shiftLeft
deriving DecidableEq, Repr

namespace AluOp

/-- The bitwise operations, whose flag some dialects do not write. -/
def isLogic : AluOp → Bool
  | .or | .and | .xor => true
  | _ => false

def isShift : AluOp → Bool
  | .shiftRight | .shiftLeft => true
  | _ => false

/-- The shifts look at the first operand only. -/
def apply (op : AluOp) (a b : Byte) : Byte × Bool :=
  match op with
  | .or => (a ||| b, false)
  | .and => (a &&& b, false)
  | .xor => (a ^^^ b, false)
  | .add => (a + b, 255 < a.toNat + b.toNat)
  | .sub => (a - b, b.toNat ≤ a.toNat)
  | .subReversed => (b - a, a.toNat ≤ b.toNat)
  | .shiftRight => (a >>> 1, a.getLsbD 0)
  | .shiftLeft => (a <<< 1, a.getLsbD 7)

end AluOp

end ChipEight
