import ChipEight.Proofs.Lemmas.Step

/-!
# Faults

A run stops at the first step that faults, and that step leaves nothing behind but the fault and its
detail (`run_stops_at_first_fault`). Which steps fault is said by the digits of the word at the program
counter and by the stack, the index and the tick (`step_faults_iff`). The address of a fault is recorded
in sixteen bits, so that the last few addresses that an instruction can run up to come out as low ones
(`step_reports_address`).
-/

namespace ChipEight.State

variable {s : State}

/-! ## Runs and their first fault -/

/-- What at most `n` steps of a running machine come to. -/
inductive RunOutcome (s : State) (n : Nat) : State → Prop
  | finished (hr : ∀ j ≤ n, (step^[j] s).fault = 0) : RunOutcome s n (step^[n] s)
  /-- After `k` steps without a fault comes one with a fault. -/
  | faulted {k : Nat} {fault : Byte} {detail : Word} (hk : k < n)
      (hr : ∀ j ≤ k, (step^[j] s).fault = 0) (hf : (step^[k + 1] s).fault = fault)
      (hd : (step^[k + 1] s).detail = detail) (h : fault ≠ 0) :
      RunOutcome s n { step^[k] s with fault, detail }

theorem first_fault (h : s.fault = 0) (n : Nat) :
    (∀ j ≤ n, (step^[j] s).fault = 0) ∨
      ∃ k < n, (∀ j ≤ k, (step^[j] s).fault = 0) ∧ (step^[k + 1] s).fault ≠ 0 := by
  induction n with
  | zero => exact Or.inl fun j hj => by rw [Nat.le_zero.mp hj]; exact h
  | succ n ih =>
      rcases ih with hr | ⟨k, hk, hr, hf⟩
      · by_cases hf : (step^[n + 1] s).fault = 0
        · exact Or.inl fun j hj => (Nat.lt_or_eq_of_le hj).elim
            (fun hlt => hr j (Nat.le_of_lt_succ hlt)) (fun he => he ▸ hf)
        · exact Or.inr ⟨n, Nat.lt_succ_self n, hr, hf⟩
      · exact Or.inr ⟨k, Nat.lt_succ_of_lt hk, hr, hf⟩

/-- A run of a running machine either takes all its steps or stops at the first one that faults, and
a halted machine does not move. -/
theorem run_stops_at_first_fault (s : State) (n : Nat) :
    (s.fault = 0 → RunOutcome s n (s.run n)) ∧ (s.fault ≠ 0 → s.run n = s) := by
  refine ⟨fun h => ?_, fun h => run_of_halted h n⟩
  rcases first_fault h n with hr | ⟨k, hk, hr, hf⟩
  · rw [run_eq_iterate]
    exact .finished hr
  · have hs : (step^[k] s).fault = 0 := hr k (Nat.le_refl k)
    have hstep : step^[k + 1] s = (step^[k] s).step := Function.iterate_succ_apply' ..
    rw [run_of_fault hk hf, hstep, (step_outcome hs).eq_of_fault hs (hstep ▸ hf)]
    exact .faulted hk hr (congrArg fault hstep) (congrArg detail hstep) (hstep ▸ hf)

/-- Sets a register and returns although nothing was called. -/
def strayReturn : State :=
  { rng := ⟨0, 0⟩, memory := Memory.zeroed.writeBytes 0x200 [0x60, 0x05, 0x00, 0xEE] }

theorem run_strayReturn :
    strayReturn.fault = 0 ∧ RunOutcome strayReturn 5 (strayReturn.run 5) ∧
      (strayReturn.run 5).fault ≠ 0 ∧ (strayReturn.run 5).run 7 = strayReturn.run 5 := by
  have hf : (strayReturn.run 5).fault ≠ 0 := by decide +kernel
  exact ⟨rfl, (run_stops_at_first_fault _ 5).1 rfl, hf, (run_stops_at_first_fault _ 7).2 hf⟩

/-! ## Conditions of faults -/

/-- The number of the word at the program counter, which has its high byte first. -/
def code (s : State) : Nat :=
  0x100 * (s.memory.read s.pc.toNat).toNat + (s.memory.read (s.pc.toNat + 1)).toNat

/-- The faults that a running machine runs into, by the digits of the word that it fetches. -/
inductive FaultsWith (s : State) : Fault → Prop
  | fetch (hpc : 0xFFF ≤ s.pc.toNat) : FaultsWith s (.badAddress (max s.pc.toNat 0x1000 : Nat))
  | undefined (hpc : s.pc.toNat < 0xFFF) (hw : Instr.Undefined s.code) :
      FaultsWith s (.illegalOpcode s.code)
  | call (hpc : s.pc.toNat < 0xFFF) (hw : s.code / 0x1000 = 0x2)
      (hs : 16 ≤ s.stack.pointer.toNat) : FaultsWith s .stackOverflow
  | ret (hpc : s.pc.toNat < 0xFFF) (hw : s.code = 0x00EE) (hs : s.stack.pointer = 0) :
      FaultsWith s .stackUnderflow
  /-- A draw that waits for a tick does not look at memory yet. -/
  | draw (hpc : s.pc.toNat < 0xFFF) (hw : s.code / 0x1000 = 0xD) (hn : 0 < s.code % 0x10)
      (hi : 0xFFF < s.index.toNat + s.code % 0x10 - 1)
      (hv : s.dialect.drawsAwaitTick = true → s.ticked = true) :
      FaultsWith s (.badAddress (s.index.toNat + s.code % 0x10 - 1 : Nat))
  | storeDecimal (hpc : s.pc.toNat < 0xFFF) (hw : s.code / 0x1000 = 0xF)
      (hb : s.code % 0x100 = 0x33) (hi : 0xFFF < s.index.toNat + 2) :
      FaultsWith s (.badAddress (s.index.toNat + 2 : Nat))
  | transfer (hpc : s.pc.toNat < 0xFFF) (hw : s.code / 0x1000 = 0xF)
      (hb : s.code % 0x100 = 0x55 ∨ s.code % 0x100 = 0x65)
      (hi : 0xFFF < s.index.toNat + s.code / 0x100 % 0x10) :
      FaultsWith s (.badAddress (s.index.toNat + s.code / 0x100 % 0x10 : Nat))

theorem fetchFault_eq (s : State) : s.fetchFault = .badAddress (max s.pc.toNat 0x1000 : Nat) := by
  simp only [fetchFault, Memory.lastAddress, Fault.badAddress.injEq]
  omega

theorem code_of_opcode? {w : Word} (h : s.opcode? = some w) :
    s.pc.toNat < 0xFFF ∧ s.code = w.toNat := by
  obtain ⟨hpc, rfl⟩ := opcode?_eq_some.mp h
  exact ⟨hpc, (Word.toNat_ofBytes ..).symm⟩

theorem beyond?_eq_some {last : Nat} {f : Fault} :
    beyond? last = some f ↔ 0xFFF < last ∧ f = .badAddress last := by
  rw [beyond?, Option.ite_none_left_eq_some, Nat.not_le, Option.some.injEq, @eq_comm _ f]
  rfl

/-- The instructions that can fault, each with its condition. -/
theorem FaultsWith.of_trap? {i : Instr} {f : Fault} (hw : s.opcode? = some i.toWord)
    (hf : s.trap? i = some f) : FaultsWith s f := by
  obtain ⟨hpc, hc⟩ := code_of_opcode? hw
  cases i with
  | call nnn =>
      rw [Instr.toWord, Word.toNat_ofTarget (by decide)] at hc
      simp only [trap?, CallStack.isFull, decide_eq_true_eq, Option.ite_none_right_eq_some,
        Option.some.injEq] at hf
      obtain ⟨hs, rfl⟩ := hf
      exact .call hpc (by omega) hs
  | ret =>
      simp only [trap?, CallStack.isEmpty, decide_eq_true_eq, Option.ite_none_right_eq_some,
        Option.some.injEq] at hf
      obtain ⟨hs, rfl⟩ := hf
      exact .ret hpc hc hs
  | draw x y n =>
      rw [Instr.toWord, Word.toNat_ofRegReg (by decide), BitVec.toNat_ofFin] at hc
      simp only [trap?, Option.ite_none_left_eq_some, beyond?_eq_some, not_or] at hf
      obtain ⟨⟨hv, hn⟩, hi, rfl⟩ := hf
      have hm : s.code % 0x10 = n.val := by omega
      rw [← hm]
      exact .draw hpc (by omega) (by omega) (by omega) (by simpa [drawWaits] using hv)
  | storeDecimal x =>
      rw [Instr.toWord, Word.toNat_ofRegByte (by decide)] at hc
      simp only [BitVec.reduceToNat] at hc
      obtain ⟨hi, rfl⟩ := beyond?_eq_some.mp hf
      exact .storeDecimal hpc (by omega) (by omega) hi
  | storeRegs x | loadRegs x =>
      rw [Instr.toWord, Word.toNat_ofRegByte (by decide)] at hc
      simp only [BitVec.reduceToNat] at hc
      obtain ⟨hi, rfl⟩ := beyond?_eq_some.mp hf
      have hx : s.code / 0x100 % 0x10 = x.val := by omega
      rw [← hx] at hi ⊢
      exact .transfer hpc (by omega) (by omega) hi
  | _ => cases hf

theorem Outcome.faultsWith {t : State} (h : Outcome s t) (hs : s.fault = 0) (ht : t.fault ≠ 0) :
    ∃ f, FaultsWith s f ∧ t = s.stopped f := by
  cases h with
  | unfetched hw =>
      exact ⟨s.fetchFault, s.fetchFault_eq ▸ .fetch (opcode?_eq_none.mp hw), rfl⟩
  | @undefined w hw hi =>
      obtain ⟨hpc, hc⟩ := code_of_opcode? hw
      rw [Instr.ofWord?_eq_none, ← hc] at hi
      exact ⟨_, hc ▸ .undefined hpc hi, rfl⟩
  | @trapped w i f hw hi hf =>
      obtain rfl := Instr.toWord_of_ofWord? hi
      exact ⟨f, .of_trap? hw hf, rfl⟩
  | executed => exact absurd ((s.advanced.effect_fault _).trans hs) ht

/-- The word below the last address, with its first digit. -/
theorem exists_opcode (hpc : s.pc.toNat < 0xFFF) :
    ∃ w, s.opcode? = some w ∧ s.code = w.toNat ∧ w.family.val = s.code / 0x1000 := by
  obtain ⟨w, hop⟩ : ∃ w, s.opcode? = some w := ⟨_, opcode?_eq_some.mpr ⟨hpc, rfl⟩⟩
  have hc := (code_of_opcode? hop).2
  exact ⟨w, hop, hc, hc ▸ w.family_val⟩

theorem FaultsWith.outcome {f : Fault} (h : FaultsWith s f) : Outcome s (s.stopped f) := by
  cases h with
  | fetch hpc => exact s.fetchFault_eq ▸ .unfetched (opcode?_eq_none.mpr hpc)
  | undefined hpc hw =>
      obtain ⟨w, hop, hc, -⟩ := exists_opcode hpc
      rw [hc] at hw ⊢
      exact .undefined hop (Instr.ofWord?_eq_none.mpr hw)
  | call hpc hw hs =>
      obtain ⟨w, hop, hc, hf⟩ := exists_opcode hpc
      have hi : (Instr.call w.nnn).toWord = w := Word.ofTarget_nnn (by decide) (hf.trans hw)
      exact .trapped hop (Instr.ofWord?_eq_some.mpr hi) (by simp [trap?, CallStack.isFull, hs])
  | ret hpc hw hs =>
      obtain ⟨w, hop, hc, -⟩ := exists_opcode hpc
      have hi : Instr.ret.toWord = w := BitVec.eq_of_toNat_eq (hw.symm.trans hc)
      exact .trapped hop (Instr.ofWord?_eq_some.mpr hi) (by simp [trap?, CallStack.isEmpty, hs])
  | draw hpc hw hn hi hv =>
      obtain ⟨w, hop, hc, hf⟩ := exists_opcode hpc
      have hd : (Instr.draw w.x w.y w.n).toWord = w := Word.ofRegReg_x_y_n (by decide) (hf.trans hw)
      have hm : w.n.val = s.code % 0x10 := hc ▸ w.n_val
      have hz : w.n.val ≠ 0 := by omega
      have hw : s.drawWaits = false := by simpa [drawWaits] using hv
      rw [← hm] at hi ⊢
      refine .trapped hop (Instr.ofWord?_eq_some.mpr hd) ?_
      simp [trap?, hw, hz, beyond?_eq_some, hi]
  | storeDecimal hpc hw hb hi =>
      obtain ⟨w, hop, hc, hf⟩ := exists_opcode hpc
      have hd : (Instr.storeDecimal w.x).toWord = w :=
        Word.ofRegByte_x (by decide) (hf.trans hw) (hc ▸ hb)
      exact .trapped hop (Instr.ofWord?_eq_some.mpr hd) (beyond?_eq_some.mpr ⟨hi, rfl⟩)
  | transfer hpc hw hb hi =>
      obtain ⟨w, hop, hc, hf⟩ := exists_opcode hpc
      have hx : w.x.val = s.code / 0x100 % 0x10 := hc ▸ w.x_val
      rw [← hx] at hi ⊢
      rcases hb with hb | hb
      · have hd : (Instr.storeRegs w.x).toWord = w :=
          Word.ofRegByte_x (by decide) (hf.trans hw) (hc ▸ hb)
        exact .trapped hop (Instr.ofWord?_eq_some.mpr hd) (beyond?_eq_some.mpr ⟨hi, rfl⟩)
      · have hd : (Instr.loadRegs w.x).toWord = w :=
          Word.ofRegByte_x (by decide) (hf.trans hw) (hc ▸ hb)
        exact .trapped hop (Instr.ofWord?_eq_some.mpr hd) (beyond?_eq_some.mpr ⟨hi, rfl⟩)

theorem FaultsWith.step_eq {f : Fault} (hf : FaultsWith s f) (h : s.fault = 0) :
    s.step = s.stopped f := (step_outcome h).unique hf.outcome

theorem code_lt (s : State) : s.code < 2 ^ 16 := by
  have := (s.memory.read s.pc.toNat).isLt
  have := (s.memory.read (s.pc.toNat + 1)).isLt
  unfold code
  omega

/-- A step faults exactly under the conditions of `FaultsWith`, with the number of the fault and, for a
word without an instruction, with the word as its detail. -/
theorem step_faults_iff (s : State) (h : s.fault = 0) :
    (∀ n ≠ 0, s.step.fault.toNat = n ↔ ∃ f, FaultsWith s f ∧ f.number = n) ∧
      (s.step.fault = 0 ↔ ¬∃ f, FaultsWith s f) ∧
      (s.step.fault.toNat = 1 → s.step.detail.toNat = s.code) := by
  have hcond (hne : s.step.fault ≠ 0) : ∃ f, FaultsWith s f ∧ s.step = s.stopped f :=
    (step_outcome h).faultsWith h hne
  refine ⟨fun n hn => ⟨?_, ?_⟩, ⟨?_, ?_⟩, ?_⟩
  · rintro rfl
    obtain ⟨f, hf, hs⟩ := hcond fun h0 => hn (by rw [h0]; rfl)
    exact ⟨f, hf, by rw [hs, stopped_fault]⟩
  · rintro ⟨f, hf, rfl⟩
    rw [hf.step_eq h, stopped_fault]
  · rintro h0 ⟨f, hf⟩
    rw [hf.step_eq h] at h0
    exact stopped_fault_ne_zero f h0
  · intro hno
    by_contra hne
    obtain ⟨f, hf, -⟩ := hcond hne
    exact hno ⟨f, hf⟩
  · intro h1
    obtain ⟨f, hf, hs⟩ := hcond fun h0 => by simp [h0] at h1
    rw [hs, stopped_fault] at h1
    cases hf with
    | undefined hpc hw =>
        rw [hs, stopped, Fault.detail, BitVec.ofInt_natCast, BitVec.toNat_ofNat,
          Nat.mod_eq_of_lt s.code_lt]
    | _ => simp [Fault.number] at h1

/-- The second instruction of the program returns from nothing. -/
theorem step_faults_iff_strayReturn : let s := { strayReturn with pc := 0x202 }
    s.fault = 0 ∧ (s.step.fault.toNat = 3 ↔ ∃ f, FaultsWith s f ∧ f.number = 3) ∧
      (s.step.fault = 0 ↔ ¬∃ f, FaultsWith s f) ∧
      (s.step.fault.toNat = 1 → s.step.detail.toNat = s.code) :=
  have h := step_faults_iff { strayReturn with pc := 0x202 } rfl
  ⟨rfl, h.1 3 (by decide), h.2⟩

/-! ## Reported addresses -/

/-- No instruction reaches further than fifteen addresses from the index. -/
theorem FaultsWith.address_bounds {a : Nat} (h : FaultsWith s (.badAddress a)) :
    0x1000 ≤ a ∧ a ≤ 0x1000E := by
  have hpc := s.pc.isLt
  have hindex := s.index.isLt
  generalize hf : Fault.badAddress a = f at h
  cases h with
  | undefined | call | ret => cases hf
  | fetch | draw | storeDecimal | transfer =>
      rw [Fault.badAddress.injEq] at hf
      omega

theorem FaultsWith.exists_address {f : Fault} (h : FaultsWith s f) (hn : f.number = 4) :
    ∃ a : Nat, FaultsWith s (.badAddress a) := by
  -- The address of a fault is an integer, and each condition gives it as a number.
  cases h with
  | undefined | call | ret => simp [Fault.number] at hn
  | fetch hpc => exact ⟨_, .fetch hpc⟩
  | draw hpc hw hi hv hz => exact ⟨_, .draw hpc hw hi hv hz⟩
  | storeDecimal hpc hw hb hi => exact ⟨_, .storeDecimal hpc hw hb hi⟩
  | transfer hpc hw hb hi => exact ⟨_, .transfer hpc hw hb hi⟩

theorem stopped_badAddress_detail (a : Nat) :
    (s.stopped (.badAddress a)).detail.toNat = a % 0x10000 := by
  rw [stopped, Fault.detail, BitVec.ofInt_natCast, BitVec.toNat_ofNat]

/-- A step that faults with an address records the address that the instruction runs up to by its low
sixteen bits, and reports what is recorded. The report is the address, and lies outside memory, exactly
if the address fits into sixteen bits. -/
theorem step_reports_address (s : State) (h : s.fault = 0) (hf : s.step.fault = 4) :
    (∃ a : Nat, FaultsWith s (.badAddress a)) ∧ ∀ a : Nat, FaultsWith s (.badAddress a) →
      0x1000 ≤ a ∧ s.step.detail.toNat = a % 0x10000 ∧
      s.step.haltReason =
        .ok { fault := .badAddress s.step.detail.toNat, pc := some s.pc.toNat } ∧
      (s.step.detail.toNat = a ↔ a < 0x10000) ∧
      (0x1000 ≤ s.step.detail.toNat ↔ a < 0x10000) := by
  constructor
  · obtain ⟨f, hcond, hstep⟩ := (step_outcome h).faultsWith h (by rw [hf]; decide)
    rw [hstep] at hf
    exact hcond.exists_address ((stopped_fault f).symm.trans (congrArg BitVec.toNat hf))
  · intro a ha
    obtain ⟨hlow, hhigh⟩ := ha.address_bounds
    have hdetail : s.step.detail.toNat = a % 0x10000 := by
      rw [ha.step_eq h, stopped_badAddress_detail]
    have hpc : s.step.pc = s.pc := by rw [ha.step_eq h]; rfl
    refine ⟨hlow, hdetail, haltReason_eq_ok.mpr ⟨?_, ?_⟩, by omega, by omega⟩
    · rw [hf]
      rfl
    · rw [hpc]

/-- Stores two registers where I is the largest word. -/
def overrun : State :=
  { rng := ⟨0, 0⟩, memory := Memory.zeroed.writeBytes 0x200 [0xF1, 0x55], index := 0xFFFF }

theorem overrun_faultsWith : FaultsWith overrun (.badAddress (0x10000 : Nat)) := by
  have hcode : overrun.code = 0xF155 := by decide +kernel
  have h := FaultsWith.transfer (s := overrun) (by decide) (by rw [hcode]) (by simp [hcode])
    (by rw [hcode]; decide)
  rwa [hcode] at h

theorem step_reports_address_overrun : overrun.fault = 0 ∧ overrun.step.fault = 4 ∧
    FaultsWith overrun (.badAddress (0x10000 : Nat)) ∧
    overrun.step.haltReason = .ok { fault := .badAddress 0, pc := some 0x200 } := by
  have hf : overrun.step.fault = 4 := by decide +kernel
  obtain ⟨-, hdetail, hreason, -⟩ := (step_reports_address overrun rfl hf).2 _ overrun_faultsWith
  rw [hdetail] at hreason
  exact ⟨rfl, hf, overrun_faultsWith, hreason⟩

/-- The second register goes to an address outside memory, and the report is of address zero. -/
theorem step_misreports_overrun : ¬∀ s : State, s.fault = 0 → s.step.fault = 4 → ∃ a : Nat,
    FaultsWith s (.badAddress a) ∧ s.step.detail.toNat = a ∧ 0x1000 ≤ s.step.detail.toNat := by
  intro h
  obtain ⟨a, -, -, hlow⟩ := h overrun rfl (by decide +kernel)
  have hdetail : overrun.step.detail = 0 := by decide +kernel
  rw [hdetail] at hlow
  exact absurd hlow (by decide)

end ChipEight.State
