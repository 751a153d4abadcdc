import ChipEight.Proofs.Lemmas.Effect
import ChipEight.Proofs.Lemmas.Instr

/-!
# Arithmetic over the integers

The bytes that an arithmetic word leaves are those of the sums, differences and halves of integers, and the flag
says what a byte could not hold (`execute_arithmetic`). Both operands are read before anything is written, and the
flag is written last.
-/

namespace ChipEight

/-! ## Results and flags of bytes -/

namespace AluOp

variable (a b : Byte)

theorem toNat_sub : ((sub.apply a b).1.toNat : Int) = ((a.toNat : Int) - b.toNat) % 256 := by
  simp only [apply, BitVec.toNat_sub]
  omega

theorem toNat_shiftRight : (shiftRight.apply a b).1.toNat = a.toNat / 2 := by
  simp [apply, Nat.shiftRight_eq_div_pow]

theorem toNat_shiftLeft : (shiftLeft.apply a b).1.toNat = 2 * a.toNat % 256 := by
  simp [apply, Nat.shiftLeft_eq, Nat.mul_comm]

theorem flag_shiftRight : (shiftRight.apply a b).2 = decide (a.toNat % 2 = 1) := by
  simp [apply, BitVec.getLsbD]

theorem flag_shiftLeft : (shiftLeft.apply a b).2 = decide (128 ≤ a.toNat) := by
  have hlt := a.isLt
  simp only [apply, BitVec.getLsbD, Nat.testBit_eq_decide_div_mod_eq, decide_eq_decide]
  omega

end AluOp

namespace State

/-! ## Registers -/

/-- In `t` VX is the result and VF the flag, if there is one. Where both are one register it is the flag. -/
structure Leaves (s : State) (x : Reg) (result : Int) (flag : Option Bool) (t : State) : Prop where
  frame : t = { s with v := t.v }
  vx : flag = none ∨ x ≠ flagReg → ((t.v.get x).toNat : Int) = result
  vf : ∀ on, flag = some on → t.v.get flagReg = if on then 1 else 0
  others : ∀ r, r ≠ x → flag = none ∨ r ≠ flagReg → t.v.get r = s.v.get r

variable (s : State) (x y : Reg)

theorem leaves_setReg (b : Byte) : s.Leaves x b.toNat none (s.setReg x b) where
  frame := rfl
  vx := fun _ => by rw [get_setReg_self]
  vf := fun _ h => nomatch h
  others := fun _ hr _ => s.get_setReg_of_ne b hr

theorem leaves_setFlag (b : Byte) (on : Bool) : s.Leaves x b.toNat (some on) ((s.setReg x b).setFlag on) where
  frame := rfl
  vx := by
    rintro (h | h)
    · cases h
    · rw [setFlag, get_setReg_of_ne _ _ h, get_setReg_self]
  vf := by
    rintro _ ⟨⟩
    exact get_setReg_self ..
  others := by
    rintro r hr (h | h)
    · cases h
    · rw [setFlag, get_setReg_of_ne _ _ h, get_setReg_of_ne _ _ hr]

theorem leaves_alu (op : AluOp) :
    let r := op.apply (s.v.get (s.aluSource op x y)) (s.v.get y)
    s.Leaves x r.1.toNat (if s.writesFlag op then some r.2 else none) (s.alu op x y) := by
  intro r
  unfold alu
  split
  · exact s.leaves_setFlag x r.1 r.2
  · exact s.leaves_setReg x r.1

/-! ## Words -/

theorem execute_alu (op : AluOp) : s.execute (Word.ofRegReg 0x8 x y op.nibble) = s.alu op x y :=
  execute_of_effect (Instr.ofWord?_toWord (.alu op x y)) rfl

theorem execute_copy : s.execute (Word.ofRegReg 0x8 x y 0x0) = s.setReg x (s.v.get y) :=
  execute_of_effect (Instr.ofWord?_toWord (.copy x y)) rfl

theorem leaves_execute (op : AluOp) {n : BitVec 4} {result : Int} {flag : Option Bool} (hn : op.nibble = n)
    (hresult : ((op.apply (s.v.get (s.aluSource op x y)) (s.v.get y)).1.toNat : Int) = result)
    (hflag : (if s.writesFlag op then some (op.apply (s.v.get (s.aluSource op x y)) (s.v.get y)).2 else none)
      = flag) : s.Leaves x result flag (s.execute (Word.ofRegReg 0x8 x y n)) := by
  have h := s.leaves_alu x y op
  rw [← hn, execute_alu]
  simp only [hresult, hflag] at h
  exact h

/-- The operands are what VX and VY are before. A word without a flag leaves its result also in VF. -/
theorem execute_arithmetic (s : State) (x y : Reg) :
    let a := (s.v.get x).toNat
    let b := (s.v.get y).toNat
    let shifted := if s.dialect.shiftsReadVy then b else a
    let cleared := if s.dialect.logicClearsFlag then some false else none
    let after (n : BitVec 4) := s.execute (Word.ofRegReg 0x8 x y n)
    s.Leaves x b none (after 0x0) ∧
    s.Leaves x (a ||| b : Nat) cleared (after 0x1) ∧
    s.Leaves x (a &&& b : Nat) cleared (after 0x2) ∧
    s.Leaves x (a ^^^ b : Nat) cleared (after 0x3) ∧
    s.Leaves x ((a + b) % 256 : Nat) (some (255 < a + b)) (after 0x4) ∧
    s.Leaves x (((a : Int) - b) % 256) (some (b ≤ a)) (after 0x5) ∧
    s.Leaves x (shifted / 2 : Nat) (some (shifted % 2 = 1)) (after 0x6) ∧
    s.Leaves x (((b : Int) - a) % 256) (some (a ≤ b)) (after 0x7) ∧
    s.Leaves x (2 * shifted % 256 : Nat) (some (128 ≤ shifted)) (after 0xE) := by
  intro a b shifted cleared after
  have hshifted {op : AluOp} (hop : op.isShift = true) : (s.v.get (s.aluSource op x y)).toNat = shifted := by
    simp only [aluSource, hop, Bool.true_and, shifted, a, b]
    split <;> rfl
  refine ⟨?_, ?_, ?_, ?_, ?_, ?_, ?_, ?_, ?_⟩
  · simp only [after, execute_copy]
    exact s.leaves_setReg x _
  · exact s.leaves_execute x y .or rfl rfl rfl
  · exact s.leaves_execute x y .and rfl rfl rfl
  · exact s.leaves_execute x y .xor rfl rfl rfl
  · exact s.leaves_execute x y .add rfl (congrArg _ (BitVec.toNat_add ..)) rfl
  · exact s.leaves_execute x y .sub rfl (AluOp.toNat_sub ..) rfl
  · refine s.leaves_execute x y .shiftRight rfl ?_ ?_
    · rw [AluOp.toNat_shiftRight, hshifted rfl]
    · rw [AluOp.flag_shiftRight, hshifted rfl]
      rfl
  · exact s.leaves_execute x y .subReversed rfl (AluOp.toNat_sub ..) rfl
  · refine s.leaves_execute x y .shiftLeft rfl ?_ ?_
    · rw [AluOp.toNat_shiftLeft, hshifted rfl]
    · rw [AluOp.flag_shiftLeft, hshifted rfl]
      rfl

end State

end ChipEight
