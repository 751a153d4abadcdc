import ChipEight.Decimal.Shortest
import ChipEight.Text.Digit

/-!
# Data of unknown shape

What a host or a settings file may hand over where a number, a text or a mapping is expected.
-/

namespace ChipEight

inductive Datum where
  | null
  | bool (b : Bool)
  | int (z : Int)
  | float (f : Float)
  | text (s : String)
  | list (items : List Datum)
  | map (entries : List (Datum × Datum))
deriving Inhabited

namespace Datum

/-- Zero and everything that is empty count as false. -/
def isTrue : Datum → Bool
  | .null => false
  | .bool b => b
  | .int z => z != 0
  | .float f => f != 0
  | .text s => s != ""
  | .list items => !items.isEmpty
  | .map entries => !entries.isEmpty

/-! ## Integers -/

/-- Why a datum is no integer. -/
inductive IntegerError where
  | notANumber
  | unreadable
  | notFinite
deriving DecidableEq, Repr

/-- The fraction of a number is cut off, a text is read. -/
def toInteger : Datum → Except IntegerError Int
  | .bool b => .ok b.toInt
  | .int z => .ok z
  | .float f =>
      match Decimal.Parts.ofFloat f with
      | .finite b => .ok b.truncate
      | .infinite _ => .error .notFinite
      | .nan => .error .unreadable
  | .text s =>
      match Text.integer? s with
      | some z => .ok z
      | none => .error .unreadable
  | _ => .error .notANumber

/-! ## Numbers and texts -/

/-- Whether a number lies between zero and a bound; nothing where the datum is no number. -/
def within? (d : Datum) (bound : Nat) : Option Bool :=
  match d with
  | .bool b => some (b.toNat ≤ bound)
  | .int z => some (0 ≤ z && z ≤ bound)
  | .float f => some (0 ≤ f && f ≤ .ofNat bound)
  | _ => none

/-- The text of a single value; what contains others has none. -/
def scalarText? : Datum → Option String
  | .null => some "None"
  | .bool b => some (if b then "True" else "False")
  | .int z => some (toString z)
  | .float f => some (Decimal.shortestText f)
  | .text s => some s
  | _ => none

def scalarText (d : Datum) : String := d.scalarText?.getD ""

end Datum

end ChipEight
