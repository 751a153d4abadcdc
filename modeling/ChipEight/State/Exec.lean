import ChipEight.Instr.Decode
import ChipEight.State

/-!
# Executing one instruction

`State.trap?` names the fault that an instruction runs into, `State.effect` is what it does when
there is none. A fault is recorded in the state as it was before the instruction.
-/

namespace ChipEight.State

/-! ## Faults of instructions -/

/-- The fault of reaching an address past the end of memory. -/
def beyond? (last : Nat) : Option Fault :=
  if last ≤ Memory.lastAddress then none else some (.badAddress last)

/-- A draw is put off until the next tick. -/
def drawWaits (s : State) : Bool := s.dialect.drawsAwaitTick && !s.ticked

def trap? (s : State) : Instr → Option Fault
  | .call _ => if s.stack.isFull then some .stackOverflow else none
  | .ret => if s.stack.isEmpty then some .stackUnderflow else none
  | .draw _ _ n =>
      if s.drawWaits ∨ n.val = 0 then none else beyond? (s.index.toNat + n.val - 1)
  | .storeDecimal _ => beyond? (s.index.toNat + 2)
  | .storeRegs x => beyond? (s.index.toNat + x.val)
  | .loadRegs x => beyond? (s.index.toNat + x.val)
  | _ => none

/-! ## Registers and the program counter -/

def setReg (s : State) (x : Reg) (b : Byte) : State := { s with v := s.v.set x b }

def setFlag (s : State) (on : Bool) : State := s.setReg flagReg (if on then 1 else 0)

def skip (s : State) : State := { s with pc := s.pc + 2 }

/-- Back to the instruction that is being executed, which so is executed again. -/
def rewind (s : State) : State := { s with pc := s.pc - 2 }

def jump (s : State) (nnn : Target) : State := { s with pc := nnn.zeroExtend 16 }

def holds (s : State) : Condition → Bool
  | .equalByte x nn => s.v[x] == nn
  | .differsByte x nn => s.v[x] != nn
  | .equalReg x y => s.v[x] == s.v[y]
  | .differsReg x y => s.v[x] != s.v[y]
  | .pressed x => s.keypad.ofReg s.v[x]
  | .released x => !s.keypad.ofReg s.v[x]

/-! ## Arithmetic -/

/-- The first operand: the register that is written, and for a shift possibly the other one. -/
def aluSource (s : State) (op : AluOp) (x y : Reg) : Reg :=
  if op.isShift && s.dialect.shiftsReadVy then y else x

def writesFlag (s : State) (op : AluOp) : Bool := !op.isLogic || s.dialect.logicClearsFlag

/-- The flag is written after the result and wins where both go to one register. -/
def alu (s : State) (op : AluOp) (x y : Reg) : State :=
  let r := op.apply s.v[s.aluSource op x y] s.v[y]
  let t := s.setReg x r.1
  if s.writesFlag op then t.setFlag r.2 else t

def random (s : State) (x : Reg) (nn : Byte) : State :=
  let (next, drawn) := s.rng.split
  { s with v := s.v.set x (drawn.byte &&& nn), rng := next }

/-! ## The screen -/

def spriteOf (s : State) (x y : Reg) (n : Fin 16) : Screen :=
  Screen.sprite s.dialect.spritesWrap (s.v[x].extractLsb' 0 6).toFin (s.v[y].extractLsb' 0 5).toFin n.val
    fun r => s.memory.read (s.index.toNat + r)

def draw (s : State) (x y : Reg) (n : Fin 16) : State :=
  let sprite := s.spriteOf x y n
  { s with
    screen := s.screen.flip sprite
    v := s.v.set flagReg (if s.screen.overlaps sprite then 1 else 0)
    ticked := false }

/-! ## Keys, timers and memory -/

/-- Latches the lowest key that is down. -/
def waitKey (s : State) (x : Reg) : State :=
  match s.keypad.lowestPressed? with
  | some k => s.setReg x (.ofNat 8 k.val)
  | none => s.rewind

def pointGlyph (s : State) (x : Reg) : State :=
  { s with index := .ofNat 16 (Memory.glyphStart + (s.v[x].extractLsb' 0 4).toNat * Memory.glyphSize) }

def decimalDigits (b : Byte) : List Byte := [b / 100, b / 10 % 10, b % 10]

def storeDecimal (s : State) (x : Reg) : State :=
  { s with memory := s.memory.writeBytes s.index.toNat (decimalDigits s.v[x]) }

/-- What a block transfer does to I. -/
def indexAfter (s : State) (x : Reg) : Word :=
  if s.dialect.transfersMoveIndex then s.index + .ofNat 16 x.val + 1 else s.index

def storeRegs (s : State) (x : Reg) : State :=
  { s with
    memory := s.memory.writeBytes s.index.toNat (s.v.toList.take (x.val + 1))
    index := s.indexAfter x }

def loadRegs (s : State) (x : Reg) : State :=
  { s with
    v := Vector.ofFn fun i => if i.val ≤ x.val then s.memory.read (s.index.toNat + i.val) else s.v.get i
    index := s.indexAfter x }

/-! ## Instructions -/

/-- What an instruction does in a state in which it has no fault. -/
def effect (s : State) : Instr → State
  | .clear => { s with screen := Screen.blank }
  | .ret => { s with pc := s.stack.top, stack := s.stack.drop }
  | .jump nnn => s.jump nnn
  | .call nnn => { s with stack := s.stack.push s.pc }.jump nnn
  | .skipIf c => if s.holds c then s.skip else s
  | .setByte x nn => s.setReg x nn
  | .addByte x nn => s.setReg x (s.v[x] + nn)
  | .copy x y => s.setReg x s.v[y]
  | .alu op x y => s.alu op x y
  | .setIndex nnn => { s with index := nnn.zeroExtend 16 }
  | .jumpOffset nnn =>
      let x := if s.dialect.jumpsAddVx then nnn.x else offsetReg
      { s with pc := nnn.zeroExtend 16 + (s.v.get x).zeroExtend 16 }
  | .random x nn => s.random x nn
  | .draw x y n => if s.drawWaits then s.rewind else s.draw x y n
  | .readDelay x => s.setReg x s.delay
  | .waitKey x => s.waitKey x
  | .setDelay x => { s with delay := s.v[x] }
  | .setSound x => { s with sound := s.v[x] }
  | .addIndex x => { s with index := s.index + s.v[x].zeroExtend 16 }
  | .pointGlyph x => s.pointGlyph x
  | .storeDecimal x => s.storeDecimal x
  | .storeRegs x => s.storeRegs x
  | .loadRegs x => s.loadRegs x

def exec (s : State) (i : Instr) : State :=
  match s.trap? i with
  | some f => s.halt f
  | none => s.effect i

/-- Executes a word whether or not the machine is halted; the program counter is not advanced. -/
def execute (s : State) (w : Word) : State :=
  match Instr.ofWord? w with
  | some i => s.exec i
  | none => s.halt (.illegalOpcode w.toNat)

end ChipEight.State
