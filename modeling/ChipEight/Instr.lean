import ChipEight.Alu

/-!
# Instructions

What a defined instruction word says, and the operation that it is filed under.
-/

namespace ChipEight

/-- What a conditional skip looks at. -/
inductive Condition where
  | equalByte (x : Reg) (nn : Byte)
  | differsByte (x : Reg) (nn : Byte)
  | equalReg (x y : Reg)
  | differsReg (x y : Reg)
  | pressed (x : Reg)
  | released (x : Reg)
deriving DecidableEq, Repr

inductive Instr where
  | clear
  | ret
  | jump (nnn : Target)
  | call (nnn : Target)
  | skipIf (c : Condition)
  | setByte (x : Reg) (nn : Byte)
  | addByte (x : Reg) (nn : Byte)
  | copy (x y : Reg)
  | alu (op : AluOp) (x y : Reg)
  | setIndex (nnn : Target)
  | jumpOffset (nnn : Target)
  | random (x : Reg) (nn : Byte)
  | draw (x y : Reg) (n : Fin 16)
  | readDelay (x : Reg)
  | waitKey (x : Reg)
  | setDelay (x : Reg)
  | setSound (x : Reg)
  | addIndex (x : Reg)
  | pointGlyph (x : Reg)
  | storeDecimal (x : Reg)
  | storeRegs (x : Reg)
  | loadRegs (x : Reg)
deriving DecidableEq, Repr

/-! ## Operations -/

/-- The operation of a word, without its operands. -/
inductive Op where
  | illegal | clear | ret | jump | call
  | skipEqualByte | skipDiffersByte | skipEqualReg
  | setByte | addByte | copy
  | or | and | xor | add | sub | shiftRight | subReversed | shiftLeft
  | skipDiffersReg | setIndex | jumpOffset | random | draw
  | skipPressed | skipReleased
  | readDelay | waitKey | setDelay | setSound | addIndex
  | pointGlyph | storeDecimal | storeRegs | loadRegs
deriving DecidableEq, Repr

namespace Op

/-- The position in the table of operations. -/
def index (op : Op) : Nat := op.ctorIdx

def name : Op → String
  | .illegal => "ILLEGAL"
  | .clear => "CLS"
  | .ret => "RET"
  | .jump => "JP"
  | .call => "CALL"
  | .skipEqualByte => "SE_IMM"
  | .skipDiffersByte => "SNE_IMM"
  | .skipEqualReg => "SE_REG"
  | .setByte => "LD_IMM"
  | .addByte => "ADD_IMM"
  | .copy => "LD_REG"
  | .or => "OR"
  | .and => "AND"
  | .xor => "XOR"
  | .add => "ADD_REG"
  | .sub => "SUB"
  | .shiftRight => "SHR"
  | .subReversed => "SUBN"
  | .shiftLeft => "SHL"
  | .skipDiffersReg => "SNE_REG"
  | .setIndex => "LD_I"
  | .jumpOffset => "JP_OFFSET"
  | .random => "RND"
  | .draw => "DRW"
  | .skipPressed => "SKP"
  | .skipReleased => "SKNP"
  | .readDelay => "LD_VX_DT"
  | .waitKey => "LD_VX_K"
  | .setDelay => "LD_DT_VX"
  | .setSound => "LD_ST_VX"
  | .addIndex => "ADD_I_VX"
  | .pointGlyph => "LD_F_VX"
  | .storeDecimal => "LD_B_VX"
  | .storeRegs => "LD_MEM_VX"
  | .loadRegs => "LD_VX_MEM"

end Op

def Condition.op : Condition → Op
  | .equalByte .. => .skipEqualByte
  | .differsByte .. => .skipDiffersByte
  | .equalReg .. => .skipEqualReg
  | .differsReg .. => .skipDiffersReg
  | .pressed _ => .skipPressed
  | .released _ => .skipReleased

def AluOp.op : AluOp → Op
  | .or => .or
  | .and => .and
  | .xor => .xor
  | .add => .add
  | .sub => .sub
  | .subReversed => .subReversed
  | .shiftRight => .shiftRight
  | .shiftLeft => .shiftLeft

def Instr.op : Instr → Op
  | .clear => .clear
  | .ret => .ret
  | .jump _ => .jump
  | .call _ => .call
  | .skipIf c => c.op
  | .setByte .. => .setByte
  | .addByte .. => .addByte
  | .copy .. => .copy
  | .alu op .. => op.op
  | .setIndex _ => .setIndex
  | .jumpOffset _ => .jumpOffset
  | .random .. => .random
  | .draw .. => .draw
  | .readDelay _ => .readDelay
  | .waitKey _ => .waitKey
  | .setDelay _ => .setDelay
  | .setSound _ => .setSound
  | .addIndex _ => .addIndex
  | .pointGlyph _ => .pointGlyph
  | .storeDecimal _ => .storeDecimal
  | .storeRegs _ => .storeRegs
  | .loadRegs _ => .loadRegs

end ChipEight
