import ChipEight.Machine
import ChipEight.Proofs.Lemmas.Step

/-!
# Runs and single steps of a host

A host may call `run` once or `step` many times, with the same result (`run_agrees_with_stepTimes`).
Only the history and the log tell the two apart.
-/

namespace ChipEight

/-! ## Scans -/

namespace ProgressBar

theorem iterate_carry {σ : Type} (b : ProgressBar) (step : σ → Nat → σ) (t : Trail σ) (i : Nat) :
    (b.iterate step t i).carry = step t.carry i := rfl

/-- A bar that looks on does not change the result of a scan. -/
theorem scan_carry {σ : Type} (b : ProgressBar) (step : σ → Nat → σ) (start : σ) :
    (b.scan step start).1 = (List.range b.total).foldl step start :=
  (List.foldl_hom Trail.carry (fun t i => (b.iterate_carry step t i).symm)).symm

end ProgressBar

namespace Machine

theorem advance_state (s : State) (n : Int) (progress : Bool) :
    (advance s n progress).1 = s.run n.toNat := by
  cases progress with
  | false => rfl
  | true =>
      simp only [advance, if_true, ProgressBar.scan_carry, State.run_eq_iterate]
      simp [List.foldl_const, ProgressBar.ofTotal]

/-! ## Machines that differ in their records -/

/-- The history and the log are all that two machines differ in. -/
def Twins (m m' : Machine) : Prop := ∃ history logger, m = { m' with history, logger }

theorem Twins.refl (m : Machine) : Twins m m := ⟨m.history, m.logger, rfl⟩

theorem Twins.symm {m m' : Machine} : Twins m m' → Twins m' m := by
  rintro ⟨_, _, rfl⟩
  exact ⟨m'.history, m'.logger, rfl⟩

theorem Twins.trans {m₁ m₂ m₃ : Machine} : Twins m₁ m₂ → Twins m₂ m₃ → Twins m₁ m₃ := by
  rintro ⟨history, logger, rfl⟩ ⟨_, _, rfl⟩
  exact ⟨history, logger, rfl⟩

theorem Twins.state_eq {m m' : Machine} (h : Twins m m') : m.state = m'.state := by
  obtain ⟨_, _, rfl⟩ := h
  rfl

theorem note_twins (m : Machine) (address opcode : Word) : Twins (m.note address opcode) m :=
  ⟨_, _, rfl⟩

/-! ## Settling -/

theorem settle_of_running {m : Machine} (h : m.state.fault = 0) : m.settle = (.ok (), m) := by
  simp [settle, State.isHalted_eq_false.mpr h]

theorem settle_of_halted {m : Machine} {h : Halt} (hf : m.state.fault ≠ 0)
    (hr : m.state.haltReason = .ok h) : m.settle =
      (.error (.halt h), { m with haltReason := some h, logger := m.logger.record (.halted h) }) := by
  simp [settle, State.isHalted_eq_true.mpr hf, hr]

/-- The halt is recorded beside the state. -/
theorem settle_state (m : Machine) : m.settle.2.state = m.state := by
  rw [settle]
  split
  · split <;> rfl
  · rfl

/-- What a machine is told when it settles does not depend on its records. -/
theorem Twins.settle {m m' : Machine} (h : Twins m m') :
    m.settle.1 = m'.settle.1 ∧ Twins m.settle.2 m'.settle.2 := by
  obtain ⟨history, logger, rfl⟩ := h
  simp only [Machine.settle]
  split
  · split
    · exact ⟨rfl, _, _, rfl⟩
    · exact ⟨rfl, _, _, rfl⟩
  · exact ⟨rfl, _, _, rfl⟩

/-! ## Single steps -/

/-- At most `n` single steps, as a host takes them that gives up at the first one that stops. -/
def stepTimes (m : Machine) : Nat → Except Stop Unit × Machine
  | 0 => (.ok (), m)
  | n + 1 =>
      match m.step with
      | (.ok (), m') => m'.stepTimes n
      | (.error e, m') => (.error e, m')

/-- A step moves the state on and settles; noting the instruction does not get in the way. -/
theorem step_twins {m : Machine} (h : m.haltReason = none) :
    ∃ m', m.step = m'.settle ∧ Twins m' { m with state := m.state.step } := by
  simp only [step, h]
  cases m.currentOpcode? with
  | none => exact ⟨_, rfl, .refl _⟩
  | some opcode => exact ⟨_, rfl, note_twins ..⟩

theorem step_state {m : Machine} (h : m.haltReason = none) : m.step.2.state = m.state.step := by
  obtain ⟨m', hstep, hm'⟩ := step_twins h
  rw [hstep, settle_state, hm'.state_eq]

theorem stepTimes_settle (n : Nat) (m : Machine) (hr : m.haltReason = none)
    (hf : m.state.fault = 0) :
    (m.stepTimes n).1 = ({ m with state := m.state.run n } : Machine).settle.1 ∧
      Twins (m.stepTimes n).2 ({ m with state := m.state.run n } : Machine).settle.2 := by
  -- As long as no step faults both sides go on from twins, and with the first fault the run stands still.
  induction n generalizing m with
  | zero =>
      rw [settle_of_running (m := { m with state := m.state.run 0 }) hf]
      exact ⟨rfl, .refl m⟩
  | succ n ih =>
      have hrun : m.state.run (n + 1) = m.state.step.run n := by
        simp only [State.run_eq_iterate, Function.iterate_succ_apply]
      obtain ⟨m', hstep, history, logger, rfl⟩ := step_twins hr
      rw [hrun, stepTimes, hstep]
      by_cases hs : m.state.step.fault = 0
      · have hnext := settle_of_running (m := { m with state := m.state.step, history, logger }) hs
        obtain ⟨h₁, h₂⟩ := ih { m with state := m.state.step, history, logger } hr hs
        have ht : Twins { m with state := m.state.step.run n, history, logger }
            { m with state := m.state.step.run n } := ⟨history, logger, rfl⟩
        rw [hnext]
        exact ⟨h₁.trans ht.settle.1, h₂.trans ht.settle.2⟩
      · obtain ⟨f, hh, -⟩ := State.haltReason_of_le hs ((State.step_outcome hf).fault_le hf)
        have hstop := settle_of_halted (m := { m with state := m.state.step, history, logger }) hs hh
        have ht : Twins { m with state := m.state.step, history, logger }
            { m with state := m.state.step } := ⟨history, logger, rfl⟩
        obtain ⟨h₁, h₂⟩ := ht.settle
        rw [hstop] at h₁ h₂
        rw [State.run_of_halted hs, hstop]
        exact ⟨h₁, h₂⟩

/-- A run moves the state on and settles; clocks, log and bar do not get in the way. -/
theorem run_eq_settle {m : Machine} (h : m.haltReason = none) (n : Int) (progress : Bool) :
    ∃ m', m.run n progress =
        (m'.settle.1.map fun _ => (advance m.state n progress).2, m'.settle.2) ∧
      Twins m' { m with state := m.state.run n.toNat } := by
  rw [← advance_state m.state n progress]
  simp only [run, h]
  exact ⟨_, rfl, _, _, rfl⟩

theorem run_state {m : Machine} (h : m.haltReason = none) (n : Int) (progress : Bool) :
    (m.run n progress).2.state = m.state.run n.toNat := by
  obtain ⟨m', hrun, hm'⟩ := run_eq_settle h n progress
  rw [hrun, settle_state, hm'.state_eq]

theorem run_twins {m : Machine} (h : m.haltReason = none) (n : Nat) (progress : Bool) :
    ∃ m' events, m.run n progress = (m'.settle.1.map fun _ => events, m'.settle.2) ∧
      Twins m' { m with state := m.state.run n } :=
  have ⟨m', hrun, ht⟩ := run_eq_settle h n progress
  ⟨m', _, hrun, ht⟩

/-- Of a running machine a run gives what as many single steps give: the same error or none, and the
same machine but for its history and its log. -/
theorem run_agrees_with_stepTimes (m : Machine) (hr : m.haltReason = none) (hf : m.state.fault = 0)
    (n : Nat) (progress : Bool) :
    ((m.run n progress).1.map fun _ => ()) = (m.stepTimes n).1 ∧
      ∃ history logger, (m.run n progress).2 = { (m.stepTimes n).2 with history, logger } := by
  obtain ⟨h₁, h₂⟩ := stepTimes_settle n m hr hf
  obtain ⟨m', events, hrun, ht⟩ := run_twins hr n progress
  have hs := ht.settle
  rw [hrun]
  constructor
  · rw [h₁, ← hs.1]
    cases m'.settle.1 <;> rfl
  · exact hs.2.trans h₂.symm

/-- A machine before the first load. -/
def blank : Machine :=
  { entry := 0x200, traceLength := some 16, dialect := {}, logger := .start {} {},
    state := .fresh ⟨0, 0⟩ {} 0x200 }

theorem run_agrees_with_stepTimes_blank :
    blank.haltReason = none ∧ blank.state.fault = 0 ∧
      ((blank.run (3 : Nat) true).1.map fun _ => ()) = (blank.stepTimes 3).1 ∧
      ∃ history logger, (blank.run (3 : Nat) true).2 = { (blank.stepTimes 3).2 with history, logger } :=
  ⟨rfl, rfl, run_agrees_with_stepTimes blank rfl rfl 3 true⟩

end Machine

end ChipEight
