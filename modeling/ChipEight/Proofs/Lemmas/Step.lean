import ChipEight.Proofs.Lemmas.Effect
import ChipEight.Proofs.Lemmas.Instr
import ChipEight.State.Step

/-!
# What steps and runs come to

`Outcome` relates a running machine to the states that a step can lead to, with the reason for each.
`step` chooses one of them (`step_outcome`), and a halted machine stays as it is (`step_of_halted`).
A run is the iterated step (`run_eq_iterate`).
-/

namespace ChipEight.State

variable {s : State}

/-! ## Halted machines -/

theorem isHalted_eq_true : s.isHalted = true ↔ s.fault ≠ 0 := by
  simp [isHalted]

theorem isHalted_eq_false : s.isHalted = false ↔ s.fault = 0 := by
  simp [isHalted]

theorem step_of_halted (h : s.fault ≠ 0) : s.step = s := by
  simp [step, isHalted_eq_true.mpr h]

/-- The four numbers of faults are those that a host can be told of. -/
theorem haltReason_of_le (h : s.fault ≠ 0) (hle : s.fault.toNat ≤ 4) :
    ∃ f : Fault, s.haltReason = .ok { fault := f, pc := some s.pc.toNat } ∧
      f.number = s.fault.toNat := by
  have hpos : s.fault.toNat ≠ 0 := fun h0 => h (BitVec.eq_of_toNat_eq h0)
  obtain hn | hn | hn | hn : s.fault.toNat = 1 ∨ s.fault.toNat = 2 ∨ s.fault.toNat = 3 ∨
      s.fault.toNat = 4 := by omega
  all_goals
    simp only [haltReason, hn]
    exact ⟨_, rfl, rfl⟩

/-- No larger number names a fault. -/
theorem haltReason_of_gt (h : 4 < s.fault.toNat) : s.haltReason = .error .unknown := by
  have hn : Fault.ofNumber s.fault.toNat s.detail.toNat = .error .unknown := by
    unfold Fault.ofNumber
    split <;> first | rfl | omega
  simp only [haltReason, hn]
  rfl

theorem haltReason_of_running (h : s.fault = 0) : s.haltReason = .error .running := by
  simp only [haltReason, h]
  rfl

/-- A host is told of the recorded fault with its detail, and where it happened. -/
theorem haltReason_eq_ok {r : Halt} : s.haltReason = .ok r ↔
    Fault.ofNumber s.fault.toNat s.detail.toNat = .ok r.fault ∧ r.pc = some (s.pc.toNat : Int) := by
  obtain ⟨f, pc⟩ := r
  cases hn : Fault.ofNumber s.fault.toNat s.detail.toNat with
  | error e => simp [haltReason, hn, bind, Except.bind]
  | ok g => simp [haltReason, hn, bind, Except.bind, pure, Except.pure, @eq_comm _ _ pc]

/-! ## Fetching -/

/-- The state in which a fetched word is executed. -/
def advanced (s : State) : State := { s with pc := s.pc + 2 }

theorem opcode?_eq_some {w : Word} :
    s.opcode? = some w ↔ s.pc.toNat < Memory.lastAddress ∧ s.memory.word s.pc.toNat = w := by
  simp [opcode?, canFetch]

theorem opcode?_eq_none : s.opcode? = none ↔ Memory.lastAddress ≤ s.pc.toNat := by
  simp [opcode?, canFetch]

/-- The word at the program counter is one of that operation. -/
def Fetches (s : State) (op : Op) : Prop := s.opcode?.map Op.ofWord = some op

instance (s : State) (op : Op) : Decidable (s.Fetches op) := inferInstanceAs (Decidable (_ = _))

theorem fetches_iff {i : Instr} {op : Op} (hw : s.opcode? = some i.toWord) :
    s.Fetches op ↔ i.op = op := by
  rw [Fetches, hw, Option.map_some, Instr.opOfWord_toWord, Option.some.injEq]

theorem Fetches.exists_opcode {op : Op} (h : s.Fetches op) (hop : op ≠ .illegal) :
    ∃ i : Instr, s.opcode? = some i.toWord ∧ i.op = op := by
  obtain ⟨w, hw, rfl⟩ := Option.map_eq_some_iff.mp h
  obtain ⟨i, rfl⟩ := Instr.exists_toWord_of_opOfWord hop
  exact ⟨i, hw, (Instr.opOfWord_toWord i).symm⟩

/-! ## Outcomes -/

/-- The state with a fault of the instruction at the program counter. -/
def stopped (s : State) (f : Fault) : State :=
  { s with fault := .ofNat 8 f.number, detail := f.detail (s.pc + 2) }

theorem stopped_fault (f : Fault) : (s.stopped f).fault.toNat = f.number := by
  cases f <;> rfl

theorem stopped_fault_ne_zero (f : Fault) : (s.stopped f).fault ≠ 0 := by
  cases f <;> simp [stopped, Fault.number]

/-- Only `executed` changes anything but the fault and its detail. -/
inductive Outcome (s : State) : State → Prop
  | unfetched (hw : s.opcode? = none) : Outcome s (s.stopped s.fetchFault)
  | undefined {w : Word} (hw : s.opcode? = some w) (hi : Instr.ofWord? w = none) :
      Outcome s (s.stopped (.illegalOpcode w.toNat))
  | trapped {w : Word} {i : Instr} {f : Fault} (hw : s.opcode? = some w)
      (hi : Instr.ofWord? w = some i) (hf : s.trap? i = some f) : Outcome s (s.stopped f)
  | executed {w : Word} {i : Instr} (hw : s.opcode? = some w) (hi : Instr.ofWord? w = some i)
      (hf : s.trap? i = none) : Outcome s (s.advanced.effect i)

theorem step_of_running (h : s.fault = 0) : s.step = s.fetchAndExecute := by
  simp [step, isHalted_eq_false.mpr h]

theorem step_of_opcode?_eq_none (h : s.fault = 0) (hw : s.opcode? = none) :
    s.step = s.stopped s.fetchFault := by
  simp only [step_of_running h, fetchAndExecute, fetch, hw]
  rfl

/-- A fault of the execution undoes the advance. -/
theorem step_of_opcode?_eq_some {w : Word} (h : s.fault = 0) (hw : s.opcode? = some w) :
    s.step = if (s.advanced.execute w).isHalted then { s.advanced.execute w with pc := s.pc }
      else s.advanced.execute w := by
  simp only [step_of_running h, fetchAndExecute, fetch, hw, isHalted_eq_false.mpr h]
  rfl

theorem step_of_halt {w : Word} {f : Fault} (h : s.fault = 0) (hw : s.opcode? = some w)
    (he : s.advanced.execute w = s.advanced.halt f) : s.step = s.stopped f := by
  have hr : (s.advanced.halt f).isHalted = true := isHalted_eq_true.mpr (stopped_fault_ne_zero (s := s) f)
  rw [step_of_opcode?_eq_some h hw, he, if_pos hr]
  rfl

theorem step_of_effect {w : Word} {i : Instr} (h : s.fault = 0) (hw : s.opcode? = some w)
    (he : s.advanced.execute w = s.advanced.effect i) : s.step = s.advanced.effect i := by
  have hr : (s.advanced.effect i).isHalted = false := by
    rw [isHalted_eq_false, effect_fault]
    exact h
  rw [step_of_opcode?_eq_some h hw, he, if_neg (by simp [hr])]

/-- `step` takes a running machine to one of its outcomes. -/
theorem step_outcome (h : s.fault = 0) : Outcome s s.step := by
  cases hw : s.opcode? with
  | none =>
      rw [step_of_opcode?_eq_none h hw]
      exact .unfetched hw
  | some w =>
      cases hi : Instr.ofWord? w with
      | none =>
          rw [step_of_halt h hw (execute_of_undefined hi)]
          exact .undefined hw hi
      | some i =>
          have ht : s.advanced.trap? i = s.trap? i := s.trap?_pc _ i
          cases hf : s.trap? i with
          | none =>
              rw [step_of_effect h hw (execute_of_effect hi (ht.trans hf))]
              exact .executed hw hi hf
          | some f =>
              rw [step_of_halt h hw (execute_of_trap hi (ht.trans hf))]
              exact .trapped hw hi hf

theorem Outcome.unique {t t' : State} (h : Outcome s t) (h' : Outcome s t') : t = t' := by
  cases h with
  | unfetched hw => cases h' <;> simp_all
  | undefined hw hi => cases h' <;> simp_all
  | trapped hw hi hf => cases h' <;> simp_all
  | executed hw hi hf => cases h' <;> simp_all

theorem step_of_instr {i : Instr} (h : s.fault = 0) (hw : s.opcode? = some i.toWord)
    (hf : s.trap? i = none) : s.step = s.advanced.effect i :=
  (step_outcome h).unique (.executed hw (Instr.ofWord?_toWord i) hf)

theorem Outcome.fault_le {t : State} (h : Outcome s t) (hs : s.fault = 0) : t.fault.toNat ≤ 4 := by
  have hn : ∀ f : Fault, f.number ≤ 4 := fun f => by cases f <;> simp [Fault.number]
  cases h with
  | unfetched | undefined | trapped => rw [stopped_fault]; exact hn _
  | executed => rw [effect_fault, show s.advanced.fault = 0 from hs]; exact Nat.zero_le _

theorem Outcome.dialect {t : State} (h : Outcome s t) : t.dialect = s.dialect := by
  cases h with
  | unfetched | undefined | trapped => rfl
  | executed => exact s.advanced.effect_dialect _

theorem Outcome.keypad {t : State} (h : Outcome s t) : t.keypad = s.keypad := by
  cases h with
  | unfetched | undefined | trapped => rfl
  | executed => exact s.advanced.effect_keypad _

/-- An outcome with a fault differs from the state before it in the fault and its detail only. -/
theorem Outcome.eq_of_fault {t : State} (h : Outcome s t) (hs : s.fault = 0) (ht : t.fault ≠ 0) :
    t = { s with fault := t.fault, detail := t.detail } := by
  cases h with
  | unfetched | undefined | trapped => rfl
  | executed => exact absurd ((s.advanced.effect_fault _).trans hs) ht

/-- What all outcomes have a step has, if a halted machine has it already. -/
theorem step_cases {P : State → Prop} (hhalted : s.fault ≠ 0 → P s)
    (hrunning : s.fault = 0 → ∀ t, Outcome s t → P t) : P s.step := by
  by_cases hs : s.fault = 0
  · exact hrunning hs s.step (step_outcome hs)
  · rw [step_of_halted hs]
    exact hhalted hs

theorem step_fault_le (h : s.fault.toNat ≤ 4) : s.step.fault.toNat ≤ 4 :=
  step_cases (fun _ => h) fun hs _ hout => hout.fault_le hs

theorem step_dialect (s : State) : s.step.dialect = s.dialect :=
  step_cases (P := (·.dialect = s.dialect)) (fun _ => rfl) fun _ _ hout => hout.dialect

theorem step_keypad (s : State) : s.step.keypad = s.keypad :=
  step_cases (P := (·.keypad = s.keypad)) (fun _ => rfl) fun _ _ hout => hout.keypad

/-! ## Runs -/

theorem iterate_step_of_halted (h : s.fault ≠ 0) (n : Nat) : step^[n] s = s :=
  Function.iterate_fixed (step_of_halted h) n

/-- A run that ends early takes no step that would have changed the state. -/
theorem run_eq_iterate (s : State) (n : Nat) : s.run n = step^[n] s := by
  induction n generalizing s with
  | zero => rfl
  | succ n ih =>
      by_cases h : s.fault = 0
      · rw [run, isHalted_eq_false.mpr h, Function.iterate_succ_apply]
        exact ih s.step
      · rw [run, isHalted_eq_true.mpr h, iterate_step_of_halted h]
        rfl

/-- What every step keeps a run keeps. -/
theorem run_invariant (P : State → Prop) (hstep : ∀ s, P s → P s.step) (h : P s) (n : Nat) :
    P (s.run n) := by
  rw [run_eq_iterate]
  induction n with
  | zero => exact h
  | succ n ih =>
      rw [Function.iterate_succ_apply']
      exact hstep _ ih

theorem run_of_halted (h : s.fault ≠ 0) (n : Nat) : s.run n = s := by
  rw [run_eq_iterate, iterate_step_of_halted h]

/-- A run that is long enough ends with the first step that faults. -/
theorem run_of_fault {k n : Nat} (hk : k < n) (hf : (step^[k + 1] s).fault ≠ 0) :
    s.run n = step^[k + 1] s := by
  obtain ⟨m, rfl⟩ := Nat.exists_eq_add_of_lt hk
  rw [run_eq_iterate, show k + m + 1 = m + (k + 1) by omega, Function.iterate_add_apply,
    iterate_step_of_halted hf]

end ChipEight.State
