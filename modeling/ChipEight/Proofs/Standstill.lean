import ChipEight.Proofs.Faults

/-!
# Machines that stand still

A step leaves a machine as it is if the machine is halted, jumps to where it stands or waits. In all other
cases it changes the machine, and so does every run that takes a step (`step_eq_self_iff`).
-/

namespace ChipEight

theorem Target.x_val (t : Target) : t.x.val = t.toNat / 0x100 := by
  have := t.isLt
  simp only [x, BitVec.toFin_extractLsb', Fin.val_ofNat, Nat.shiftRight_eq_div_pow]
  omega

theorem Keypad.lowestPressed?_eq_none {k : Keypad} :
    k.lowestPressed? = none ↔ ∀ i : Fin 16, k.get i = false := by
  simp only [lowestPressed?, Vector.findFinIdx?_eq_none_iff, id_eq, Bool.not_eq_true]
  constructor
  · intro h i
    exact h _ (Vector.getElem_mem i.isLt)
  · intro h b hb
    obtain ⟨i, hi, rfl⟩ := Vector.mem_iff_getElem.mp hb
    exact h ⟨i, hi⟩

namespace CallStack

theorem push_ne (c : CallStack) (a : Word) : c.push a ≠ c := by
  intro h
  have hpointer : c.pointer + 1 = c.pointer := congrArg pointer h
  bv_omega

theorem drop_ne (c : CallStack) : c.drop ≠ c := by
  intro h
  have hpointer : c.pointer - 1 = c.pointer := congrArg pointer h
  bv_omega

end CallStack

namespace State

/-! ## Instructions that stand still -/

def Idles (s : State) : Instr → Prop
  | .jump nnn => nnn.zeroExtend 16 = s.pc
  | .jumpOffset nnn =>
      nnn.zeroExtend 16 + (s.v.get (if s.dialect.jumpsAddVx then nnn.x else offsetReg)).zeroExtend 16
        = s.pc
  | .draw .. => s.drawWaits = true
  | .waitKey _ => s.keypad.lowestPressed? = none
  | _ => False

variable {s : State} {i : Instr}

theorem Idles.trap? (h : s.Idles i) : s.trap? i = none := by
  cases i with
  | draw x y n =>
      have hwaits : s.drawWaits = true := h
      simp [State.trap?, hwaits]
  | jump | jumpOffset | waitKey => rfl
  | _ => exact h.elim

/-- The advance is undone by a jump to the instruction itself as well as by a wait. -/
theorem Idles.effect_eq (h : s.Idles i) : s.advanced.effect i = s := by
  have hback : ∀ pc, pc = s.pc → { s.advanced with pc } = s := by
    rintro _ rfl
    rfl
  cases i with
  | jump nnn => exact hback _ h
  | jumpOffset nnn => exact hback _ h
  | draw x y n =>
      have hwaits : s.advanced.drawWaits = true := h
      rw [effect, if_pos hwaits]
      exact hback _ (BitVec.add_sub_cancel ..)
  | waitKey x =>
      have hnone : s.advanced.keypad.lowestPressed? = none := h
      rw [effect, waitKey, hnone]
      exact hback _ (BitVec.add_sub_cancel ..)
  | _ => exact h.elim

theorem idles_of_effect_eq (h : s.advanced.effect i = s) : s.Idles i := by
  have hstack := congrArg stack h
  have hpc := congrArg pc h
  rw [effect_stack] at hstack
  rw [effect_pc] at hpc
  have hadvanced : s.advanced.pc = s.pc + 2 := rfl
  cases i with
  | jump nnn | jumpOffset nnn => exact hpc
  | call nnn => exact s.stack.push_ne _ hstack
  | ret => exact s.stack.drop_ne hstack
  | skipIf c =>
      simp only at hpc
      split at hpc <;> bv_omega
  | draw x y n =>
      by_contra hno
      have hwaits : ¬s.advanced.drawWaits = true := hno
      rw [if_neg hwaits] at hpc
      bv_omega
  | waitKey x =>
      by_contra hno
      have hpressed : ¬s.advanced.keypad.lowestPressed? = none := hno
      rw [if_neg hpressed] at hpc
      bv_omega
  | _ => bv_omega

/-! ## Words that stand still -/

/-- The register that a jump with offset adds, by the second digit of its word. -/
def offset (s : State) : Byte :=
  s.v.get (if s.dialect.jumpsAddVx then (BitVec.ofNat 4 (s.code / 0x100)).toFin else offsetReg)

/-- Why a machine stands still, by the digits of the word that it fetches. -/
inductive StandsStill (s : State) : Prop
  | halted (h : s.fault ≠ 0)
  | jump (hpc : s.pc.toNat < 0xFFF) (hw : s.code / 0x1000 = 0x1)
      (ht : s.code % 0x1000 = s.pc.toNat)
  | jumpOffset (hpc : s.pc.toNat < 0xFFF) (hw : s.code / 0x1000 = 0xB)
      (ht : s.code % 0x1000 + s.offset.toNat = s.pc.toNat)
  | waitKey (hpc : s.pc.toNat < 0xFFF) (hw : s.code / 0x1000 = 0xF) (hb : s.code % 0x100 = 0x0A)
      (hk : ∀ k : Fin 16, s.keypad.get k = false)
  | draw (hpc : s.pc.toNat < 0xFFF) (hw : s.code / 0x1000 = 0xD)
      (hd : s.dialect.drawsAwaitTick = true) (ht : s.ticked = false)

theorem drawWaits_iff : s.drawWaits = true ↔ s.dialect.drawsAwaitTick = true ∧ s.ticked = false := by
  simp [drawWaits]

theorem idles_jump_iff {nnn : Target} (hc : s.code % 0x1000 = nnn.toNat) :
    s.Idles (.jump nnn) ↔ s.code % 0x1000 = s.pc.toNat := by
  rw [Idles, hc, ← BitVec.toNat_inj]
  simp only [BitVec.truncate_eq_setWidth, BitVec.toNat_setWidth]
  omega

theorem idles_jumpOffset_iff {nnn : Target} (hc : s.code % 0x1000 = nnn.toNat) :
    s.Idles (.jumpOffset nnn) ↔ s.code % 0x1000 + s.offset.toNat = s.pc.toNat := by
  have hreg : nnn.x = (BitVec.ofNat 4 (s.code / 0x100)).toFin := by
    apply Fin.ext
    rw [nnn.x_val, BitVec.val_toFin, BitVec.toNat_ofNat]
    omega
  have hoffset : s.offset = s.v.get (if s.dialect.jumpsAddVx then nnn.x else offsetReg) := by
    rw [offset, hreg]
  rw [Idles, ← hoffset, hc, ← BitVec.toNat_inj]
  -- The furthest target has sixteen bits, so that nothing is lost.
  simp only [BitVec.truncate_eq_setWidth, BitVec.toNat_add, BitVec.toNat_setWidth]
  omega

theorem Idles.standsStill (hop : s.opcode? = some i.toWord) (h : s.Idles i) : StandsStill s := by
  obtain ⟨hpc, hc⟩ := code_of_opcode? hop
  cases i with
  | jump nnn =>
      rw [Instr.toWord, Word.toNat_ofTarget (by decide)] at hc
      exact .jump hpc (by omega) ((idles_jump_iff (by omega)).mp h)
  | jumpOffset nnn =>
      rw [Instr.toWord, Word.toNat_ofTarget (by decide)] at hc
      exact .jumpOffset hpc (by omega) ((idles_jumpOffset_iff (by omega)).mp h)
  | draw x y n =>
      rw [Instr.toWord, Word.toNat_ofRegReg (by decide), BitVec.toNat_ofFin] at hc
      obtain ⟨hd, ht⟩ := drawWaits_iff.mp h
      exact .draw hpc (by omega) hd ht
  | waitKey x =>
      rw [Instr.toWord, Word.toNat_ofRegByte (by decide)] at hc
      simp only [BitVec.reduceToNat] at hc
      exact .waitKey hpc (by omega) (by omega) (Keypad.lowestPressed?_eq_none.mp h)
  | _ => exact h.elim

theorem StandsStill.idles (h : StandsStill s) (hs : s.fault = 0) :
    ∃ i : Instr, s.opcode? = some i.toWord ∧ s.Idles i := by
  cases h with
  | halted h => exact absurd hs h
  | jump hpc hw ht =>
      obtain ⟨w, hop, hc, hf⟩ := exists_opcode hpc
      have hi : (Instr.jump w.nnn).toWord = w := Word.ofTarget_nnn (by decide) (hf.trans hw)
      exact ⟨_, hop.trans (congrArg some hi.symm), (idles_jump_iff (hc ▸ w.nnn_toNat.symm)).mpr ht⟩
  | jumpOffset hpc hw ht =>
      obtain ⟨w, hop, hc, hf⟩ := exists_opcode hpc
      have hi : (Instr.jumpOffset w.nnn).toWord = w := Word.ofTarget_nnn (by decide) (hf.trans hw)
      exact ⟨_, hop.trans (congrArg some hi.symm), (idles_jumpOffset_iff (hc ▸ w.nnn_toNat.symm)).mpr ht⟩
  | waitKey hpc hw hb hk =>
      obtain ⟨w, hop, hc, hf⟩ := exists_opcode hpc
      have hi : (Instr.waitKey w.x).toWord = w :=
        Word.ofRegByte_x (by decide) (hf.trans hw) (hc ▸ hb)
      exact ⟨.waitKey w.x, hop.trans (congrArg some hi.symm), Keypad.lowestPressed?_eq_none.mpr hk⟩
  | draw hpc hw hd ht =>
      obtain ⟨w, hop, hc, hf⟩ := exists_opcode hpc
      have hi : (Instr.draw w.x w.y w.n).toWord = w := Word.ofRegReg_x_y_n (by decide) (hf.trans hw)
      exact ⟨.draw w.x w.y w.n, hop.trans (congrArg some hi.symm), drawWaits_iff.mpr ⟨hd, ht⟩⟩

/-! ## Steps and runs -/

theorem StandsStill.step_eq (h : StandsStill s) : s.step = s := by
  by_cases hs : s.fault = 0
  · obtain ⟨i, hop, hi⟩ := h.idles hs
    rw [step_of_instr hs hop hi.trap?]
    exact hi.effect_eq
  · exact step_of_halted hs

theorem standsStill_of_step_eq (h : s.step = s) : StandsStill s := by
  by_cases hs : s.fault = 0
  · have hout := step_outcome hs
    generalize ht : s.step = t at hout
    cases hout with
    | unfetched | undefined | trapped =>
        exact absurd ((congrArg fault (ht.symm.trans h)).trans hs) (stopped_fault_ne_zero _)
    | @executed w i hw hi hf =>
        obtain rfl := Instr.toWord_of_ofWord? hi
        exact (idles_of_effect_eq (ht.symm.trans h)).standsStill hw
  · exact .halted hs

/-- A machine is left alone by a step, and by runs of every length, for one of the reasons of `StandsStill`
and for no other one. -/
theorem step_eq_self_iff (s : State) :
    (s.step = s ↔ StandsStill s) ∧ ((∀ n, s.run n = s) ↔ StandsStill s) := by
  have hstep : s.step = s ↔ StandsStill s := ⟨standsStill_of_step_eq, StandsStill.step_eq⟩
  refine ⟨hstep, ?_, ?_⟩
  · intro h
    have hone := h 1
    rw [run_eq_iterate] at hone
    exact hstep.mp hone
  · intro h n
    rw [run_eq_iterate]
    exact Function.iterate_fixed h.step_eq n

end State

end ChipEight
