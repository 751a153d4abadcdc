import ChipEight.Machine
import ChipEight.Proofs.Faults
import ChipEight.Proofs.Lemmas.Access
import ChipEight.Proofs.Lemmas.CallStack
import ChipEight.Proofs.Lemmas.Snapshot
import ChipEight.Proofs.SingleSteps

/-!
# States that a host can reach

What every sequence of steps, runs, loads, restores and accesses keeps (`Reachable.wellFormed`): where
the program counter may stand, which return addresses lie on the stack and which faults are recorded.
So a host is always told of one of the four faults.
-/

namespace ChipEight

/-! ## Stacks that only calls and returns have moved -/

structure CallStack.Tidy (c : CallStack) : Prop where
  pointer_le : c.pointer.toNat ≤ 16
  cleared : ∀ i : Fin 16, c.pointer.toNat ≤ i.val → c.slots[i] = 0
  /-- A call stands below the last address, and its return address is two further on. -/
  returns : ∀ i : Fin 16, i.val < c.pointer.toNat →
    2 ≤ c.slots[i].toNat ∧ c.slots[i].toNat ≤ 0x1000

namespace CallStack

variable {c : CallStack}

theorem tidy_empty : ({} : CallStack).Tidy where
  pointer_le := by decide
  cleared := by decide
  returns := fun i hi => absurd hi (Nat.not_lt_zero _)

theorem Tidy.push {a : Word} (h : c.Tidy) (hroom : c.pointer.toNat < 16)
    (ha : 2 ≤ a.toNat ∧ a.toNat ≤ 0x1000) : (c.push a).Tidy := by
  have hp := push_pointer (a := a) hroom
  refine ⟨by omega, fun i hi => ?_, fun i hi => ?_⟩
  · refine (get_push a i).trans ?_
    rw [if_neg (by omega)]
    exact h.cleared i (by omega)
  · rw [show (c.push a).slots[i] = _ from get_push a i]
    split
    · exact ha
    · exact h.returns i (by omega)

theorem Tidy.drop (h : c.Tidy) (hp : c.pointer ≠ 0) : c.drop.Tidy := by
  have hpointer : c.drop.pointer.toNat = c.pointer.toNat - 1 := pointer_sub_one hp
  have hpos := pointer_pos hp
  have hle := h.pointer_le
  refine ⟨by omega, fun i hi => ?_, fun i hi => ?_⟩
  · refine (get_drop hp i).trans ?_
    split
    · rfl
    · exact h.cleared i (by omega)
  · rw [show c.drop.slots[i] = _ from get_drop hp i, if_neg (by omega)]
    exact h.returns i (by omega)

theorem Tidy.top (h : c.Tidy) (hp : c.pointer ≠ 0) : 2 ≤ c.top.toNat ∧ c.top.toNat ≤ 0x1000 := by
  have hpos := pointer_pos hp
  have hle := h.pointer_le
  have hi : c.pointer.toNat - 1 < 16 := by omega
  rw [top_eq (i := ⟨c.pointer.toNat - 1, hi⟩) (by simp only; omega)]
  exact h.returns ⟨c.pointer.toNat - 1, hi⟩ (by simp only; omega)

end CallStack

namespace State

/-! ## Well-formed states -/

structure WellFormed (s : State) : Prop where
  /-- The furthest jump is one with an offset, from the last target by the largest byte. -/
  pc_le : s.pc.toNat ≤ 0x10FE
  stack : s.stack.Tidy
  fault_le : s.fault.toNat ≤ 4
  overflow : s.fault = 2 → s.stack.pointer = 16
  underflow : s.fault = 3 → s.stack.pointer = 0

variable {s t : State}

/-- Nothing but the program counter, the stack and the fault counts. -/
theorem WellFormed.of_frame (h : s.WellFormed) (hpc : t.pc = s.pc) (hstack : t.stack = s.stack)
    (hfault : t.fault = s.fault) : t.WellFormed where
  pc_le := hpc ▸ h.pc_le
  stack := hstack ▸ h.stack
  fault_le := hfault ▸ h.fault_le
  overflow := fun hn => hstack ▸ h.overflow (hfault ▸ hn)
  underflow := fun hn => hstack ▸ h.underflow (hfault ▸ hn)

theorem WellFormed.of_running (hpc : s.pc.toNat ≤ 0x10FE) (hstack : s.stack.Tidy)
    (hfault : s.fault = 0) : s.WellFormed where
  pc_le := hpc
  stack := hstack
  fault_le := by simp [hfault]
  overflow := fun hn => by simp [hfault] at hn
  underflow := fun hn => by simp [hfault] at hn

/-! ## Steps -/

section Effects

variable {w : Word} {i : Instr}

theorem advanced_pc (hw : s.opcode? = some w) :
    2 ≤ s.advanced.pc.toNat ∧ s.advanced.pc.toNat ≤ 0x1000 := by
  obtain ⟨hpc, -⟩ := opcode?_eq_some.mp hw
  simp only [Memory.lastAddress] at hpc
  simp only [advanced]
  bv_omega

theorem WellFormed.effect_pc_le (h : s.WellFormed) (hw : s.opcode? = some w) (hf : s.trap? i = none) :
    (s.advanced.effect i).pc.toNat ≤ 0x10FE := by
  obtain ⟨hlow, hhigh⟩ := advanced_pc hw
  rw [effect_pc]
  cases i with
  | ret =>
      have := (h.stack.top (pointer_of_ret hf)).2
      simp only [advanced]
      omega
  | jump nnn | call nnn =>
      have := nnn.isLt
      simp only [BitVec.truncate_eq_setWidth, BitVec.toNat_setWidth]
      omega
  | jumpOffset nnn =>
      have := nnn.isLt
      have := (s.advanced.v.get (if s.advanced.dialect.jumpsAddVx then nnn.x else offsetReg)).isLt
      simp only [BitVec.truncate_eq_setWidth, BitVec.toNat_add, BitVec.toNat_setWidth]
      omega
  -- Skips go two further, and what waits stands again where it was fetched.
  | skipIf c => simp only; split <;> bv_omega
  | draw x y n => simp only; split <;> bv_omega
  | waitKey x => simp only; split <;> bv_omega
  | _ => simp only; omega

theorem WellFormed.effect_tidy (h : s.WellFormed) (hw : s.opcode? = some w)
    (hf : s.trap? i = none) : (s.advanced.effect i).stack.Tidy := by
  rw [effect_stack]
  cases i with
  | call nnn => exact h.stack.push (pointer_of_call hf) (advanced_pc hw)
  | ret => exact h.stack.drop (pointer_of_ret hf)
  | _ => exact h.stack

end Effects

/-- The stack faults are those of a full and of an empty stack. -/
theorem WellFormed.stopped {f : Fault} (h : s.WellFormed) (hf : FaultsWith s f) :
    (s.stopped f).WellFormed where
  pc_le := h.pc_le
  stack := h.stack
  fault_le := by
    rw [stopped_fault]
    cases f <;> simp [Fault.number]
  overflow := fun hn => by
    cases hf with
    | call hpc hw hs => exact BitVec.eq_of_toNat_eq (Nat.le_antisymm h.stack.pointer_le hs)
    | _ => exact absurd hn (by simp [State.stopped, Fault.number])
  underflow := fun hn => by
    cases hf with
    | ret hpc hw hs => exact hs
    | _ => exact absurd hn (by simp [State.stopped, Fault.number])

theorem Outcome.wellFormed (h : Outcome s t) (hwf : s.WellFormed) (hs : s.fault = 0) :
    t.WellFormed := by
  by_cases ht : t.fault = 0
  · cases h with
    | unfetched | undefined | trapped => exact absurd ht (stopped_fault_ne_zero _)
    | executed hw hi hf => exact .of_running (hwf.effect_pc_le hw hf) (hwf.effect_tidy hw hf) ht
  · obtain ⟨f, hf, rfl⟩ := h.faultsWith hs ht
    exact hwf.stopped hf

theorem WellFormed.step (h : s.WellFormed) : s.step.WellFormed := by
  by_cases hs : s.fault = 0
  · exact (step_outcome hs).wellFormed h hs
  · rw [step_of_halted hs]
    exact h

theorem WellFormed.run (h : s.WellFormed) (n : Nat) : (s.run n).WellFormed :=
  run_invariant WellFormed (fun _ => WellFormed.step) h n

/-! ## The host -/

theorem load_wellFormed {program : List Byte} {entry : Int} (h : s.load program entry = .ok t) :
    t.WellFormed := by
  obtain ⟨hlow, hhigh, -, rfl⟩ := load_eq_ok h
  refine .of_running ?_ CallStack.tidy_empty rfl
  simp only [fresh, BitVec.toNat_ofInt]
  omega

/-- The states of a machine that a host has loaded, whatever it was before, and has only used since. A
restored state takes the dialect of the machine that it is restored into, which may be any. -/
inductive Reachable : State → Prop
  | load {s t : State} {program : List Byte} {entry : Int} (ht : s.load program entry = .ok t) :
      Reachable t
  | step {s : State} (hs : Reachable s) : Reachable s.step
  | run {s : State} (hs : Reachable s) (n : Int) (progress : Bool) :
      Reachable (Machine.advance s n progress).1
  | tick {s : State} (hs : Reachable s) : Reachable s.tick
  | setKey {s t : State} {k : Int} {pressed : Bool} (hs : Reachable s)
      (ht : s.setKey k pressed = .ok t) : Reachable t
  | releaseAll {s : State} (hs : Reachable s) : Reachable s.releaseAll
  | writeByte {s t : State} {a : Int} {value : Datum} (hs : Reachable s)
      (ht : s.writeByte a value = .ok t) : Reachable t
  | restore {s t u : State} (hs : Reachable s) (hu : t.restore s.save = .ok u) : Reachable u

theorem Reachable.wellFormed (h : Reachable s) : s.WellFormed := by
  induction h with
  | load ht => exact load_wellFormed ht
  | step _ ih => exact ih.step
  | run _ n progress ih =>
      rw [Machine.advance_state]
      exact ih.run _
  | tick _ ih | releaseAll _ ih => exact ih.of_frame rfl rfl rfl
  | setKey _ ht ih =>
      obtain ⟨keypad, rfl⟩ := setKey_eq_ok ht
      exact ih.of_frame rfl rfl rfl
  | writeByte _ ht ih =>
      obtain ⟨memory, rfl⟩ := writeByte_eq_ok ht
      exact ih.of_frame rfl rfl rfl
  | restore _ hu ih =>
      rw [restore_save] at hu
      cases hu
      exact ih.of_frame rfl rfl rfl

/-- Every reachable state is well-formed, and if it is halted a host is told of the fault that it holds
the number of. -/
theorem reachable_sound (h : Reachable s) : s.WellFormed ∧
    (s.fault ≠ 0 → ∃ f : Fault, s.haltReason = .ok { fault := f, pc := some s.pc.toNat } ∧
      f.number = s.fault.toNat) :=
  ⟨h.wellFormed, fun hf => haltReason_of_le hf h.wellFormed.fault_le⟩

/-- A program that returns from nothing is loaded, run, saved and restored. -/
theorem reachable_sound_strayReturn : ∃ s t,
    strayReturn.load [0x00, 0xEE] 0x200 = .ok s ∧
      strayReturn.restore (Machine.advance s 3 true).1.save = .ok t ∧ t.Reachable ∧ t.WellFormed ∧
      t.fault = 3 ∧ ∃ f : Fault, t.haltReason = .ok { fault := f, pc := some t.pc.toNat } ∧
        f.number = t.fault.toNat := by
  obtain ⟨s, hs, hf⟩ : ∃ s, strayReturn.load [0x00, 0xEE] 0x200 = .ok s ∧
      (Machine.advance s 3 true).1.fault = 3 := ⟨_, rfl, by decide +kernel⟩
  have hu := restore_save (Machine.advance s 3 true).1 strayReturn
  have hreach := Reachable.restore (.run (.load hs) 3 true) hu
  have h := reachable_sound hreach
  exact ⟨s, _, hs, hu, hreach, h.1, hf, h.2 (by rw [show _ = (3 : Byte) from hf]; decide)⟩

end State

end ChipEight
