import ChipEight.Proofs.Lemmas.Step

/-!
# Changes beside a step

A change to parts of the state that say nothing about the course of the machine commutes with a step, if
it commutes with the instruction that the step executes (`Aside.step_comm`).
-/

namespace ChipEight.State

variable {f : State → State} {s : State}

/-- A change to parts of the state that do not say where a machine stands, what its registers hold and
whether it is halted. -/
structure Aside (f : State → State) : Prop where
  pc_eq : ∀ s, (f s).pc = s.pc
  v_eq : ∀ s, (f s).v = s.v
  fault_eq : ∀ s, (f s).fault = s.fault
  advanced : ∀ s, (f s).advanced = f s.advanced
  rewind : ∀ s, (f s).rewind = f s.rewind
  setReg : ∀ s x b, (f s).setReg x b = f (s.setReg x b)
  stopped : ∀ s r, (f s).stopped r = f (s.stopped r)

namespace Aside

/-- Memory, the keypad, the timers and the dialect lie beside a step. -/
theorem of_devices (memory : Memory → Memory) (keypad : Keypad → Keypad) (delay sound : Byte → Byte)
    (ticked : Bool → Bool) (dialect : Dialect → Dialect) : Aside fun s =>
      { s with
        memory := memory s.memory, keypad := keypad s.keypad, delay := delay s.delay,
        sound := sound s.sound, ticked := ticked s.ticked, dialect := dialect s.dialect } where
  pc_eq := fun _ => rfl
  v_eq := fun _ => rfl
  fault_eq := fun _ => rfl
  advanced := fun _ => rfl
  rewind := fun _ => rfl
  setReg := fun _ _ _ => rfl
  stopped := fun _ _ => rfl

variable (hf : Aside f)
include hf

/-! ## Instructions that move the program counter or a register -/

theorem skip (s : State) : (f s).skip = f s.skip := hf.advanced s

theorem effect_skipIf {c : Condition} (h : (f s).holds c = s.holds c) :
    (f s).effect (.skipIf c) = f (s.effect (.skipIf c)) := by
  rw [effect, effect, h, hf.skip, apply_ite f]

theorem effect_alu {op : AluOp} {x y : Reg} (hsource : (f s).aluSource op x y = s.aluSource op x y)
    (hflag : (f s).writesFlag op = s.writesFlag op) :
    (f s).effect (.alu op x y) = f (s.effect (.alu op x y)) := by
  simp only [effect, alu, hsource, hflag, hf.v_eq, hf.setReg, setFlag, apply_ite f]

theorem effect_waitKey {x : Reg} (h : (f s).keypad = s.keypad) :
    (f s).effect (.waitKey x) = f (s.effect (.waitKey x)) := by
  simp only [effect, waitKey, h]
  split
  · exact hf.setReg ..
  · exact hf.rewind s

theorem effect_draw {x y : Reg} {n : Fin 16} (hwaits : (f s).drawWaits = s.drawWaits)
    (hdraw : (f s).draw x y n = f (s.draw x y n)) :
    (f s).effect (.draw x y n) = f (s.effect (.draw x y n)) := by
  rw [effect, effect, hwaits, hdraw, hf.rewind, apply_ite f]

/-! ## Steps -/

/-- The change must not get in the way of fetching either. -/
theorem step_comm (hw : s.fault = 0 → (f s).opcode? = s.opcode?)
    (hi : ∀ i : Instr, s.fault = 0 → s.opcode? = some i.toWord → (f s).trap? i = s.trap? i ∧
      (f s.advanced).effect i = f (s.advanced.effect i)) : (f s).step = f s.step := by
  by_cases hs : s.fault = 0
  · have hout := step_outcome ((hf.fault_eq s).trans hs)
    have hfetch : (f s).fetchFault = s.fetchFault := by rw [fetchFault, fetchFault, hf.pc_eq]
    have h := step_outcome hs
    generalize s.step = t at h
    -- A machine has one outcome only, so that the image of the outcome of `s` is the one of `f s`.
    refine hout.unique ?_
    cases h with
    | unfetched hn =>
        rw [← hf.stopped, ← hfetch]
        exact .unfetched ((hw hs).trans hn)
    | undefined hn hu =>
        rw [← hf.stopped]
        exact .undefined ((hw hs).trans hn) hu
    | trapped hn hu ht =>
        obtain rfl := Instr.toWord_of_ofWord? hu
        rw [← hf.stopped]
        exact .trapped ((hw hs).trans hn) hu ((hi _ hs hn).1.trans ht)
    | executed hn hu ht =>
        obtain rfl := Instr.toWord_of_ofWord? hu
        obtain ⟨htrap, heffect⟩ := hi _ hs hn
        rw [← heffect, ← hf.advanced]
        exact .executed ((hw hs).trans hn) hu (htrap.trans ht)
  · rw [step_of_halted hs, step_of_halted ((hf.fault_eq s).symm ▸ hs)]

end Aside

end ChipEight.State
