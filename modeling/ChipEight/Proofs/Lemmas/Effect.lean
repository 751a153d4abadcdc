import ChipEight.State.Exec
import Mathlib

/-!
# Frames of instructions

What the effect of an instruction does to the parts of the state: first to those that decide whether and
where a machine goes on, which are the fault, the stack and the program counter, and then to the others.
-/

namespace ChipEight.State

variable (s : State)

@[simp]
theorem get_setReg_self (x : Reg) (b : Byte) : (s.setReg x b).v.get x = b := Vector.getElem_set_self ..

theorem get_setReg_of_ne {r x : Reg} (b : Byte) (h : r ≠ x) : (s.setReg x b).v.get r = s.v.get r :=
  Vector.getElem_set_ne x.isLt r.isLt (Fin.val_ne_of_ne h.symm)

theorem random_eq (x : Reg) (nn : Byte) : s.random x nn =
    { s.setReg x (s.rng.split.2.byte &&& nn) with rng := s.rng.next } := rfl

/-! ## Parts that no instruction touches -/

theorem effect_frame (i : Instr) : (s.effect i).fault = s.fault ∧ (s.effect i).detail = s.detail ∧
    (s.effect i).dialect = s.dialect ∧ (s.effect i).keypad = s.keypad := by
  cases i with
  | skipIf c => simp only [effect]; split <;> exact ⟨rfl, rfl, rfl, rfl⟩
  | alu op x y => simp only [effect, alu]; split <;> exact ⟨rfl, rfl, rfl, rfl⟩
  | draw x y n => simp only [effect]; split <;> exact ⟨rfl, rfl, rfl, rfl⟩
  | waitKey x => simp only [effect, waitKey]; split <;> exact ⟨rfl, rfl, rfl, rfl⟩
  | _ =>
      simp only [effect, jump, setReg, random_eq, pointGlyph, storeDecimal, storeRegs, loadRegs,
        and_self]

@[simp]
theorem effect_fault (i : Instr) : (s.effect i).fault = s.fault := (s.effect_frame i).1

@[simp]
theorem effect_detail (i : Instr) : (s.effect i).detail = s.detail := (s.effect_frame i).2.1

@[simp]
theorem effect_dialect (i : Instr) : (s.effect i).dialect = s.dialect := (s.effect_frame i).2.2.1

@[simp]
theorem effect_keypad (i : Instr) : (s.effect i).keypad = s.keypad := (s.effect_frame i).2.2.2

/-! ## The stack and the program counter -/

/-- Only calls and returns move the stack. -/
theorem effect_stack (i : Instr) : (s.effect i).stack =
    match i with
    | .call _ => s.stack.push s.pc
    | .ret => s.stack.drop
    | _ => s.stack := by
  cases i with
  | skipIf | alu | draw | waitKey => simp only [effect, alu, waitKey]; split <;> rfl
  | random => simp only [effect, random_eq, setReg]
  | _ => rfl

/-- The program counter stands behind the instruction already, so that most of them leave it alone. -/
theorem effect_pc (i : Instr) : (s.effect i).pc =
    match i with
    | .ret => s.stack.top
    | .jump nnn | .call nnn => nnn.zeroExtend 16
    | .jumpOffset nnn =>
        nnn.zeroExtend 16
          + (s.v.get (if s.dialect.jumpsAddVx then nnn.x else offsetReg)).zeroExtend 16
    | .skipIf c => if s.holds c then s.pc + 2 else s.pc
    | .draw .. => if s.drawWaits then s.pc - 2 else s.pc
    | .waitKey _ => if s.keypad.lowestPressed? = none then s.pc - 2 else s.pc
    | _ => s.pc := by
  cases i with
  | skipIf c => simp only [effect]; split <;> rfl
  | alu op x y => simp only [effect, alu]; split <;> rfl
  | draw x y n => simp only [effect]; split <;> rfl
  | waitKey x => simp only [effect, waitKey]; split <;> simp_all [setReg, rewind]
  | _ => simp only [effect, jump, setReg, random_eq, pointGlyph, storeDecimal, storeRegs, loadRegs]

/-! ## Memory, registers and devices -/

theorem effect_memory (i : Instr) : (s.effect i).memory =
    match i with
    | .storeDecimal x => s.memory.writeBytes s.index.toNat (decimalDigits (s.v.get x))
    | .storeRegs x => s.memory.writeBytes s.index.toNat (s.v.toList.take (x.val + 1))
    | _ => s.memory := by
  cases i with
  | skipIf | alu | draw | waitKey => simp only [effect, alu, waitKey]; split <;> rfl
  | random => simp only [effect, random_eq, setReg]
  | _ => rfl

theorem effect_v (i : Instr) : (s.effect i).v =
    match i with
    | .setByte x nn => (s.setReg x nn).v
    | .addByte x nn => (s.setReg x (s.v.get x + nn)).v
    | .copy x y => (s.setReg x (s.v.get y)).v
    | .alu op x y => (s.alu op x y).v
    | .random x nn => (s.setReg x (s.rng.split.2.byte &&& nn)).v
    | .draw x y n => if s.drawWaits then s.v else (s.draw x y n).v
    | .readDelay x => (s.setReg x s.delay).v
    | .waitKey x => (s.waitKey x).v
    | .loadRegs x => (s.loadRegs x).v
    | _ => s.v := by
  cases i with
  | skipIf | draw => simp only [effect]; split <;> rfl
  | random => simp only [effect, random_eq]
  | _ => rfl

theorem effect_index (i : Instr) : (s.effect i).index =
    match i with
    | .setIndex nnn => nnn.zeroExtend 16
    | .addIndex x => s.index + (s.v.get x).zeroExtend 16
    | .pointGlyph x => (s.pointGlyph x).index
    | .storeRegs x | .loadRegs x => s.indexAfter x
    | _ => s.index := by
  cases i with
  | skipIf | alu | draw | waitKey => simp only [effect, alu, waitKey]; split <;> rfl
  | random => simp only [effect, random_eq, setReg]
  | _ => rfl

theorem effect_screen (i : Instr) : (s.effect i).screen =
    match i with
    | .clear => Screen.blank
    | .draw x y n => if s.drawWaits then s.screen else s.screen.flip (s.spriteOf x y n)
    | _ => s.screen := by
  cases i with
  | skipIf | alu | draw | waitKey => simp only [effect, alu, waitKey]; split <;> rfl
  | random => simp only [effect, random_eq, setReg]
  | _ => rfl

theorem effect_ticked (i : Instr) : (s.effect i).ticked =
    match i with
    | .draw .. => if s.drawWaits then s.ticked else false
    | _ => s.ticked := by
  cases i with
  | skipIf | alu | draw | waitKey => simp only [effect, alu, waitKey]; split <;> rfl
  | random => simp only [effect, random_eq, setReg]
  | _ => rfl

theorem effect_delay (i : Instr) : (s.effect i).delay =
    match i with
    | .setDelay x => s.v.get x
    | _ => s.delay := by
  cases i with
  | skipIf | alu | draw | waitKey => simp only [effect, alu, waitKey]; split <;> rfl
  | random => simp only [effect, random_eq, setReg]
  | _ => rfl

theorem effect_sound (i : Instr) : (s.effect i).sound =
    match i with
    | .setSound x => s.v.get x
    | _ => s.sound := by
  cases i with
  | skipIf | alu | draw | waitKey => simp only [effect, alu, waitKey]; split <;> rfl
  | random => simp only [effect, random_eq, setReg]
  | _ => rfl

/-- Only drawn numbers move the random key. -/
theorem effect_rng (i : Instr) : (s.effect i).rng =
    match i with
    | .random .. => s.rng.next
    | _ => s.rng := by
  cases i with
  | skipIf | alu | draw | waitKey => simp only [effect, alu, waitKey]; split <;> rfl
  | random => simp only [effect, random_eq, setReg]
  | _ => rfl

/-! ## Faults of instructions -/

/-- Whether an instruction has a fault does not depend on where it stands. -/
theorem trap?_pc (pc : Word) (i : Instr) : { s with pc }.trap? i = s.trap? i := by
  cases i <;> rfl

variable {s}

theorem pointer_of_call {nnn : Target} (hf : s.trap? (.call nnn) = none) :
    s.stack.pointer.toNat < 16 := by
  simpa [trap?, CallStack.isFull] using hf

theorem pointer_of_ret (hf : s.trap? .ret = none) : s.stack.pointer ≠ 0 := by
  simpa [trap?, CallStack.isEmpty] using hf

theorem execute_of_undefined {w : Word} (hi : Instr.ofWord? w = none) :
    s.execute w = s.halt (.illegalOpcode w.toNat) := by
  simp only [execute, hi]

theorem execute_of_trap {w : Word} {i : Instr} {f : Fault} (hi : Instr.ofWord? w = some i)
    (hf : s.trap? i = some f) : s.execute w = s.halt f := by
  simp only [execute, hi, exec, hf]

theorem execute_of_effect {w : Word} {i : Instr} (hi : Instr.ofWord? w = some i)
    (hf : s.trap? i = none) : s.execute w = s.effect i := by
  simp only [execute, hi, exec, hf]

end ChipEight.State
