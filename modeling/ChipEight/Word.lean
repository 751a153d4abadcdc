/-!
# Bytes, words and their fields

An instruction word is read from four nibbles, most significant first: the family and then the
fields X, Y and N. NN is its low byte and NNN its low twelve bits.
-/

namespace ChipEight

abbrev Byte := BitVec 8

abbrev Word := BitVec 16

/-- A jump target inside the instruction word. -/
abbrev Target := BitVec 12

/-- The number of a register. -/
abbrev Reg := Fin 16

/-- The register that receives carries, borrows and collisions. -/
def flagReg : Reg := 15

/-- The register that a jump with offset adds by default. -/
def offsetReg : Reg := ⟨0, by decide⟩

namespace Word

/-! ## Fields -/

def family (w : Word) : Fin 16 := (w.extractLsb' 12 4).toFin

def x (w : Word) : Reg := (w.extractLsb' 8 4).toFin

def y (w : Word) : Reg := (w.extractLsb' 4 4).toFin

def n (w : Word) : Fin 16 := (w.extractLsb' 0 4).toFin

def nn (w : Word) : Byte := w.extractLsb' 0 8

def nnn (w : Word) : Target := w.extractLsb' 0 12

/-! ## Words from bytes and fields -/

/-- Words lie in memory with the high byte first. -/
def ofBytes (high low : Byte) : Word := high ++ low

/-- A family with a register and a byte: the form FXNN. -/
def ofRegByte (family : Nat) (x : Reg) (nn : Byte) : Word :=
  BitVec.ofNat 4 family ++ BitVec.ofFin (w := 4) x ++ nn

/-- A family with two registers and a nibble: the form FXYN. -/
def ofRegReg (family : Nat) (x y : Reg) (n : BitVec 4) : Word :=
  BitVec.ofNat 4 family ++ BitVec.ofFin (w := 4) x ++ BitVec.ofFin (w := 4) y ++ n

/-- A family with a target: the form FNNN. -/
def ofTarget (family : Nat) (nnn : Target) : Word := BitVec.ofNat 4 family ++ nnn

end Word

/-- The register named by the top nibble of a target. -/
def Target.x (t : Target) : Reg := (t.extractLsb' 8 4).toFin

end ChipEight
