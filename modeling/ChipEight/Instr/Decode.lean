import ChipEight.Instr

/-!
# Instructions and words

`Instr.ofWord?` reads a word and `Instr.toWord` writes one. Words without an instruction are
undefined: executing one is a fault.
-/

namespace ChipEight

namespace AluOp

/-- The last nibble of an arithmetic word. -/
def ofNibble? : Nat → Option AluOp
  | 0x1 => some .or
  | 0x2 => some .and
  | 0x3 => some .xor
  | 0x4 => some .add
  | 0x5 => some .sub
  | 0x6 => some .shiftRight
  | 0x7 => some .subReversed
  | 0xE => some .shiftLeft
  | _ => none

def nibble : AluOp → BitVec 4
  | .or => 0x1
  | .and => 0x2
  | .xor => 0x3
  | .add => 0x4
  | .sub => 0x5
  | .shiftRight => 0x6
  | .subReversed => 0x7
  | .shiftLeft => 0xE

end AluOp

namespace Instr

/-! ## Reading -/

/-- The instructions of family F, told apart by the low byte. -/
def ofMisc? (x : Reg) : Nat → Option Instr
  | 0x07 => some (.readDelay x)
  | 0x0A => some (.waitKey x)
  | 0x15 => some (.setDelay x)
  | 0x18 => some (.setSound x)
  | 0x1E => some (.addIndex x)
  | 0x29 => some (.pointGlyph x)
  | 0x33 => some (.storeDecimal x)
  | 0x55 => some (.storeRegs x)
  | 0x65 => some (.loadRegs x)
  | _ => none

def ofWord? (w : Word) : Option Instr :=
  match w.family.val with
  | 0x0 => if w = 0x00E0 then some .clear else if w = 0x00EE then some .ret else none
  | 0x1 => some (.jump w.nnn)
  | 0x2 => some (.call w.nnn)
  | 0x3 => some (.skipIf (.equalByte w.x w.nn))
  | 0x4 => some (.skipIf (.differsByte w.x w.nn))
  | 0x5 => if w.n.val = 0 then some (.skipIf (.equalReg w.x w.y)) else none
  | 0x6 => some (.setByte w.x w.nn)
  | 0x7 => some (.addByte w.x w.nn)
  | 0x8 => if w.n.val = 0 then some (.copy w.x w.y) else (AluOp.ofNibble? w.n.val).map (.alu · w.x w.y)
  | 0x9 => if w.n.val = 0 then some (.skipIf (.differsReg w.x w.y)) else none
  | 0xA => some (.setIndex w.nnn)
  | 0xB => some (.jumpOffset w.nnn)
  | 0xC => some (.random w.x w.nn)
  | 0xD => some (.draw w.x w.y w.n)
  | 0xE => if w.nn = 0x9E then some (.skipIf (.pressed w.x))
      else if w.nn = 0xA1 then some (.skipIf (.released w.x)) else none
  | _ => ofMisc? w.x w.nn.toNat

/-- A code of any size is read by its low sixteen bits, but the two words without operands have to
be the code itself. -/
def ofCode? (code : Int) : Option Instr :=
  match ofWord? (BitVec.ofInt 16 code) with
  | some .clear => if code = 0x00E0 then some .clear else none
  | some .ret => if code = 0x00EE then some .ret else none
  | i => i

/-! ## Writing -/

def toWord : Instr → Word
  | .clear => 0x00E0
  | .ret => 0x00EE
  | .jump nnn => .ofTarget 0x1 nnn
  | .call nnn => .ofTarget 0x2 nnn
  | .skipIf (.equalByte x nn) => .ofRegByte 0x3 x nn
  | .skipIf (.differsByte x nn) => .ofRegByte 0x4 x nn
  | .skipIf (.equalReg x y) => .ofRegReg 0x5 x y 0
  | .setByte x nn => .ofRegByte 0x6 x nn
  | .addByte x nn => .ofRegByte 0x7 x nn
  | .copy x y => .ofRegReg 0x8 x y 0
  | .alu op x y => .ofRegReg 0x8 x y op.nibble
  | .skipIf (.differsReg x y) => .ofRegReg 0x9 x y 0
  | .setIndex nnn => .ofTarget 0xA nnn
  | .jumpOffset nnn => .ofTarget 0xB nnn
  | .random x nn => .ofRegByte 0xC x nn
  | .draw x y n => .ofRegReg 0xD x y (.ofFin n)
  | .skipIf (.pressed x) => .ofRegByte 0xE x 0x9E
  | .skipIf (.released x) => .ofRegByte 0xE x 0xA1
  | .readDelay x => .ofRegByte 0xF x 0x07
  | .waitKey x => .ofRegByte 0xF x 0x0A
  | .setDelay x => .ofRegByte 0xF x 0x15
  | .setSound x => .ofRegByte 0xF x 0x18
  | .addIndex x => .ofRegByte 0xF x 0x1E
  | .pointGlyph x => .ofRegByte 0xF x 0x29
  | .storeDecimal x => .ofRegByte 0xF x 0x33
  | .storeRegs x => .ofRegByte 0xF x 0x55
  | .loadRegs x => .ofRegByte 0xF x 0x65

end Instr

/-! ## Operations of words -/

namespace Op

def ofInstr? : Option Instr → Op
  | some i => i.op
  | none => .illegal

def ofWord (w : Word) : Op := ofInstr? (Instr.ofWord? w)

/-- The operation of a code of any size and sign. -/
def ofCode (code : Int) : Op := ofInstr? (Instr.ofCode? code)

end Op

end ChipEight
