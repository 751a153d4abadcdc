import ChipEight.Proofs.Lemmas.Aside

/-!
# Runs in two dialects

A dialect shows only in the operations that one of its flags governs. A machine that executes none of those
on which two dialects differ runs in the same way in both (`run_inDialect`).
-/

namespace ChipEight

/-- The flags that an operation looks at. -/
def Op.flags : Op → List Dialect.Flag
  | .shiftRight | .shiftLeft => [.shiftsReadVy]
  | .storeRegs | .loadRegs => [.transfersMoveIndex]
  | .jumpOffset => [.jumpsAddVx]
  | .or | .and | .xor => [.logicClearsFlag]
  | .draw => [.drawsAwaitTick, .spritesWrap]
  | _ => []

/-- Both dialects give the same answer wherever the operation asks. -/
def Dialect.AgreeOn (d d' : Dialect) (op : Op) : Prop := ∀ flag ∈ op.flags, d.get flag = d'.get flag

instance (d d' : Dialect) (op : Op) : Decidable (d.AgreeOn d' op) :=
  inferInstanceAs (Decidable (∀ flag ∈ op.flags, _))

namespace State

/-- The same machine in another dialect. -/
def inDialect (s : State) (d : Dialect) : State := { s with dialect := d }

theorem inDialect_aside (d : Dialect) : Aside (inDialect · d) := .of_devices id id id id id fun _ => d

variable {s : State} {d : Dialect}

/-! ## What the flags govern -/

section Flags

variable {x y : Reg} {n : Fin 16}

theorem inDialect_holds (c : Condition) : (s.inDialect d).holds c = s.holds c := by
  cases c <;> rfl

theorem inDialect_aluSource {op : AluOp} (h : s.dialect.AgreeOn d op.op) :
    (s.inDialect d).aluSource op x y = s.aluSource op x y := by
  cases op with
  | shiftRight | shiftLeft =>
      have hvy : (s.inDialect d).dialect.shiftsReadVy = s.dialect.shiftsReadVy :=
        (h .shiftsReadVy (.head _)).symm
      rw [aluSource, aluSource, hvy]
  | _ => rfl

theorem inDialect_writesFlag {op : AluOp} (h : s.dialect.AgreeOn d op.op) :
    (s.inDialect d).writesFlag op = s.writesFlag op := by
  cases op with
  | or | and | xor =>
      have hclears : (s.inDialect d).dialect.logicClearsFlag = s.dialect.logicClearsFlag :=
        (h .logicClearsFlag (.head _)).symm
      rw [writesFlag, writesFlag, hclears]
  | _ => rfl

theorem inDialect_drawWaits (h : s.dialect.AgreeOn d .draw) :
    (s.inDialect d).drawWaits = s.drawWaits := by
  have hawait : (s.inDialect d).dialect.drawsAwaitTick = s.dialect.drawsAwaitTick :=
    (h .drawsAwaitTick (.head _)).symm
  rw [drawWaits, drawWaits, hawait]
  rfl

theorem inDialect_spriteOf (h : s.dialect.AgreeOn d .draw) :
    (s.inDialect d).spriteOf x y n = s.spriteOf x y n := by
  have hwrap : (s.inDialect d).dialect.spritesWrap = s.dialect.spritesWrap :=
    (h .spritesWrap (.tail _ (.head _))).symm
  rw [spriteOf, spriteOf, hwrap]
  rfl

theorem inDialect_indexAfter (h : s.dialect.AgreeOn d .storeRegs) :
    (s.inDialect d).indexAfter x = s.indexAfter x := by
  have hmove : (s.inDialect d).dialect.transfersMoveIndex = s.dialect.transfersMoveIndex :=
    (h .transfersMoveIndex (.head _)).symm
  rw [indexAfter, indexAfter, hmove]
  rfl

end Flags

/-! ## One instruction -/

variable {i : Instr}

theorem inDialect_trap? (h : s.dialect.AgreeOn d i.op) : (s.inDialect d).trap? i = s.trap? i := by
  cases i with
  | draw x y n =>
      rw [trap?, trap?, inDialect_drawWaits h]
      rfl
  | _ => rfl

theorem inDialect_effect (h : s.dialect.AgreeOn d i.op) :
    (s.inDialect d).effect i = (s.effect i).inDialect d := by
  have haside := inDialect_aside d
  cases i with
  | skipIf c => exact haside.effect_skipIf (inDialect_holds c)
  | alu op x y => exact haside.effect_alu (inDialect_aluSource h) (inDialect_writesFlag h)
  | waitKey x => exact haside.effect_waitKey rfl
  | jumpOffset nnn =>
      have hvx : (s.inDialect d).dialect.jumpsAddVx = s.dialect.jumpsAddVx :=
        (h .jumpsAddVx (.head _)).symm
      rw [effect, effect, hvx]
      rfl
  | random x nn =>
      simp only [effect, random_eq]
      rfl
  | draw x y n =>
      refine haside.effect_draw (inDialect_drawWaits h) ?_
      rw [draw, draw, inDialect_spriteOf h]
      rfl
  | storeRegs x | loadRegs x =>
      simp only [effect, storeRegs, loadRegs, inDialect_indexAfter h]
      rfl
  | _ => rfl

/-! ## Runs -/

theorem step_inDialect (h : s.fault = 0 → ∀ w ∈ s.opcode?, s.dialect.AgreeOn d (Op.ofWord w)) :
    (s.inDialect d).step = s.step.inDialect d := by
  refine (inDialect_aside d).step_comm (fun _ => rfl) fun i hs hw => ?_
  have hi := h hs _ hw
  rw [Instr.opOfWord_toWord] at hi
  exact ⟨inDialect_trap? hi, inDialect_effect (s := s.advanced) hi⟩

/-- If none of the words that the first machine executes in `n` steps is governed by a flag on which the
dialects differ, the machine runs in the same way in both, also into a fault. -/
theorem run_inDialect (s : State) (d : Dialect) (n : Nat)
    (h : ∀ k < n, (step^[k] s).fault = 0 →
      ∀ w ∈ (step^[k] s).opcode?, s.dialect.AgreeOn d (Op.ofWord w)) :
    (s.inDialect d).run n = (s.run n).inDialect d := by
  rw [run_eq_iterate, run_eq_iterate]
  induction n generalizing s with
  | zero => rfl
  | succ n ih =>
      have hstep : (s.inDialect d).step = s.step.inDialect d := step_inDialect (h 0 n.succ_pos)
      rw [Function.iterate_succ_apply, Function.iterate_succ_apply, hstep]
      refine ih s.step fun k hk => ?_
      rw [step_dialect]
      exact h (k + 1) (Nat.succ_lt_succ hk)

/-- Jumps over a shift, combines two registers and returns although nothing was called. -/
def skipsShift : State :=
  { rng := ⟨0, 0⟩
    memory := Memory.zeroed.writeBytes 0x200 [0x30, 0x00, 0x80, 0x16, 0x80, 0x11, 0x00, 0xEE] }

theorem run_inDialect_skipsShift :
    (∀ k < 3, (step^[k] skipsShift).fault = 0 →
      ∀ w ∈ (step^[k] skipsShift).opcode?, skipsShift.dialect.AgreeOn .cosmac (Op.ofWord w)) ∧
      (skipsShift.inDialect .cosmac).run 3 = (skipsShift.run 3).inDialect .cosmac ∧
      (skipsShift.run 3).fault = 3 ∧ ¬skipsShift.dialect.AgreeOn .cosmac (Op.ofWord 0x8016) := by
  have hskip : (step^[0] skipsShift).opcode? = some 0x3000 := by decide +kernel
  have hor : (step^[1] skipsShift).opcode? = some 0x8011 := by decide +kernel
  have hret : (step^[2] skipsShift).opcode? = some 0x00EE := by decide +kernel
  have h : ∀ k < 3, (step^[k] skipsShift).fault = 0 →
      ∀ w ∈ (step^[k] skipsShift).opcode?, skipsShift.dialect.AgreeOn .cosmac (Op.ofWord w) := by
    intro k hk _ w hw
    obtain rfl | rfl | rfl : k = 0 ∨ k = 1 ∨ k = 2 := by omega
    · cases hskip.symm.trans hw
      decide +kernel
    · cases hor.symm.trans hw
      decide +kernel
    · cases hret.symm.trans hw
      decide +kernel
  have hfault : (skipsShift.run 3).fault = 3 := by decide +kernel
  exact ⟨h, run_inDialect skipsShift .cosmac 3 h, hfault, by decide +kernel⟩

end State

end ChipEight
