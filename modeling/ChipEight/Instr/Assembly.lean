import ChipEight.Dialect
import ChipEight.Instr.Decode
import ChipEight.Numeral

/-!
# Assembly lines

An instruction is written as a mnemonic and its operands, a code without one as a data word.
-/

namespace ChipEight

inductive Operand where
  | reg (x : Reg)
  | byte (nn : Byte)
  | target (nnn : Target)
  | rows (n : Fin 16)
  | index
  | atIndex
  | delay
  | sound
  | key
  | glyph
  | decimal
deriving DecidableEq, Repr

def Operand.text : Operand → String
  | .reg x => "V" ++ Numeral.hex 1 x.val
  | .byte nn => "0x" ++ Numeral.hex 2 nn.toNat
  | .target nnn => "0x" ++ Numeral.hex 3 nnn.toNat
  | .rows n => toString n.val
  | .index => "I"
  | .atIndex => "[I]"
  | .delay => "DT"
  | .sound => "ST"
  | .key => "K"
  | .glyph => "F"
  | .decimal => "B"

structure AssemblyLine where
  mnemonic : String
  operands : List Operand := []
deriving DecidableEq, Repr

def AssemblyLine.text (line : AssemblyLine) : String :=
  match line.operands with
  | [] => line.mnemonic
  | ops => line.mnemonic ++ " " ++ ", ".intercalate (ops.map Operand.text)

/-! ## Lines of instructions -/

def AluOp.mnemonic : AluOp → String
  | .or => "OR"
  | .and => "AND"
  | .xor => "XOR"
  | .add => "ADD"
  | .sub => "SUB"
  | .subReversed => "SUBN"
  | .shiftRight => "SHR"
  | .shiftLeft => "SHL"

def Condition.assembly : Condition → AssemblyLine
  | .equalByte x nn => ⟨"SE", [.reg x, .byte nn]⟩
  | .differsByte x nn => ⟨"SNE", [.reg x, .byte nn]⟩
  | .equalReg x y => ⟨"SE", [.reg x, .reg y]⟩
  | .differsReg x y => ⟨"SNE", [.reg x, .reg y]⟩
  | .pressed x => ⟨"SKP", [.reg x]⟩
  | .released x => ⟨"SKNP", [.reg x]⟩

/-- The jump with offset names the register that the dialect adds. -/
def Instr.assembly (jumpsAddVx : Bool) : Instr → AssemblyLine
  | .clear => ⟨"CLS", []⟩
  | .ret => ⟨"RET", []⟩
  | .jump nnn => ⟨"JP", [.target nnn]⟩
  | .call nnn => ⟨"CALL", [.target nnn]⟩
  | .skipIf c => c.assembly
  | .setByte x nn => ⟨"LD", [.reg x, .byte nn]⟩
  | .addByte x nn => ⟨"ADD", [.reg x, .byte nn]⟩
  | .copy x y => ⟨"LD", [.reg x, .reg y]⟩
  | .alu op x y => ⟨op.mnemonic, [.reg x, .reg y]⟩
  | .setIndex nnn => ⟨"LD", [.index, .target nnn]⟩
  | .jumpOffset nnn => ⟨"JP", [.reg (if jumpsAddVx then nnn.x else offsetReg), .target nnn]⟩
  | .random x nn => ⟨"RND", [.reg x, .byte nn]⟩
  | .draw x y n => ⟨"DRW", [.reg x, .reg y, .rows n]⟩
  | .readDelay x => ⟨"LD", [.reg x, .delay]⟩
  | .waitKey x => ⟨"LD", [.reg x, .key]⟩
  | .setDelay x => ⟨"LD", [.delay, .reg x]⟩
  | .setSound x => ⟨"LD", [.sound, .reg x]⟩
  | .addIndex x => ⟨"ADD", [.index, .reg x]⟩
  | .pointGlyph x => ⟨"LD", [.glyph, .reg x]⟩
  | .storeDecimal x => ⟨"LD", [.decimal, .reg x]⟩
  | .storeRegs x => ⟨"LD", [.atIndex, .reg x]⟩
  | .loadRegs x => ⟨"LD", [.reg x, .atIndex]⟩

/-! ## Lines of codes -/

/-- A code without an instruction is shown whole, with its sign. -/
def dataWord (code : Int) : String := "DW 0x" ++ Numeral.hex 4 code

/-- Without a dialect the jump with offset reads as adding V0. -/
def disassemble (dialect : Option Dialect) (code : Int) : String :=
  match Instr.ofCode? code with
  | some i => (i.assembly (dialect.any (·.jumpsAddVx))).text
  | none => dataWord code

end ChipEight
