import ChipEight.Datum
import ChipEight.State

/-!
# Host access

What a host may read and change from outside while the machine stands between two steps. Every
argument is checked; a refused access leaves the state alone.
-/

namespace ChipEight

inductive AccessError where
  | integer (e : Datum.IntegerError)
  | address (a : Int)
  /-- The rejected value, as it is shown. -/
  | byteValue (shown : String)
  | key (k : Int)
  /-- The rejected coordinates, as they are shown. -/
  | pixel (x y : String)
  | notComparable
  | notAnIndex
deriving DecidableEq, Repr

def AccessError.message : AccessError → String
  | .address a => (Fault.badAddress a).message
  | .byteValue shown => "Byte value " ++ shown ++ " is outside 0-255"
  | .key k => "Key index " ++ toString k ++ " is outside 0x0-0xF"
  | .pixel x y => "Pixel (" ++ x ++ ", " ++ y ++ ") is outside the 64x32 display"
  | .integer _ | .notComparable | .notAnIndex => ""

/-- The integer that a host means. -/
def readInteger (d : Datum) : Except AccessError Int :=
  match d.toInteger with
  | .ok z => .ok z
  | .error e => .error (.integer e)

namespace State

/-! ## Memory -/

def checkAddress (a : Int) : Except AccessError (Fin 4096) :=
  if h : 0 ≤ a ∧ a ≤ 0xFFF then .ok ⟨a.toNat, by omega⟩ else .error (.address a)

/-- A fraction is cut off after the check. -/
def checkByte (value : Datum) : Except AccessError Byte :=
  match value.within? 0xFF with
  | none => .error .notComparable
  | some false => .error (.byteValue value.scalarText)
  | some true => (readInteger value).map (BitVec.ofInt 8)

def readByte (s : State) (a : Int) : Except AccessError Byte :=
  (checkAddress a).map fun i => s.memory[i]

def writeByte (s : State) (a : Int) (value : Datum) : Except AccessError State := do
  let i ← checkAddress a
  let b ← checkByte value
  return { s with memory := s.memory.set i b }

/-! ## Keys -/

def checkKey (k : Int) : Except AccessError (Fin 16) :=
  if h : 0 ≤ k ∧ k < 16 then .ok ⟨k.toNat, by omega⟩ else .error (.key k)

def setKey (s : State) (k : Int) (pressed : Bool) : Except AccessError State :=
  (checkKey k).map fun (i : Fin 16) => { s with keypad := s.keypad.set i pressed }

def getKey (s : State) (k : Int) : Except AccessError Bool :=
  (checkKey k).map fun i => s.keypad[i]

def releaseAll (s : State) : State := { s with keypad := Keypad.released }

/-! ## The screen -/

/-- A coordinate that is known to lie on the screen; only integers name a pixel. -/
def checkIndex (d : Datum) : Except AccessError Nat :=
  match d with
  | .int z => .ok z.toNat
  | _ => .error .notAnIndex

/-- The row is looked at only where the column is in range. -/
def checkPixel (x y : Datum) : Except AccessError Unit := do
  let outside := AccessError.pixel x.scalarText y.scalarText
  match x.within? 63 with
  | none => throw .notComparable
  | some false => throw outside
  | some true =>
    match y.within? 31 with
    | none => throw .notComparable
    | some false => throw outside
    | some true => return ()

def pixelAt (s : State) (x y : Datum) : Except AccessError Bool := do
  checkPixel x y
  let i ← checkIndex x
  let j ← checkIndex y
  return s.screen.pixel (.ofNat 64 i) (.ofNat 32 j)

end State

end ChipEight
