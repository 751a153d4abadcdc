import ChipEight.Proofs.Faults
import ChipEight.Proofs.Lemmas.Assembly
import ChipEight.Proofs.Loading
import ChipEight.Proofs.Restored

/-!
# Histories

A history tells of the latest steps since the last load or restore, as many as there is room for
(`history_lists_steps`). A machine reads each instruction for it beside the step that fetches it, and both
read the same word. The text of the word tells whether the step stopped for want of an instruction.
-/

namespace ChipEight

namespace State

/-! ## Steps that fetch a word -/

variable {s : State} {w : Word} (h : s.fault = 0) (hw : s.opcode? = some w)
include h hw

theorem fetch_of_running : s.fetch = (s.advanced, some w) := by
  simp only [fetch, hw, isHalted_eq_false.mpr h]
  rfl

/-- No other fault has the number of an illegal code. -/
theorem step_illegal_iff :
    s.step.haltReason = .ok ⟨.illegalOpcode w.toNat, some s.pc.toNat⟩ ↔ Instr.ofWord? w = none := by
  rw [haltReason_eq_ok]
  constructor
  · rintro ⟨hnumber, -⟩
    have hfault : s.step.fault ≠ 0 := by
      intro hzero
      rw [hzero] at hnumber
      cases hnumber
    obtain ⟨f, hf, hstep⟩ := (step_outcome h).faultsWith h hfault
    rw [hstep, stopped_fault] at hnumber
    cases hf with
    | undefined hpc hu => rwa [(code_of_opcode? hw).2, ← Instr.ofWord?_eq_none] at hu
    | _ => cases hnumber
  · intro hi
    have hstep : s.step = s.stopped (.illegalOpcode w.toNat) :=
      (step_outcome h).unique (.undefined hw hi)
    have hdetail : (s.stopped (.illegalOpcode w.toNat)).detail = w := by
      rw [stopped, Fault.detail, BitVec.ofInt_natCast, BitVec.ofNat_toNat, BitVec.setWidth_eq]
    rw [hstep, hdetail]
    exact ⟨rfl, rfl⟩

end State

/-- A restore is from the snapshot of a machine that calls lead to. -/
def Call.RestoresSaved (c : Call) : Prop :=
  ∀ data, c = .restore data → ∃ m : Machine, m.Reachable ∧ m.save = data

namespace Machine

variable {m : Machine} {c : Call} {cs : List Call}

/-! ## Journals -/

/-- Calls with the machines that were called, the latest first. -/
def journal (m : Machine) : List Call → List (Machine × Call)
  | [] => []
  | c :: cs => (m.after c).journal cs ++ [(m, c)]

/-- A load or a restore that succeeds. -/
def clears : Machine × Call → Bool
  | (m, .load program) => (m.answer (.load program)).isOk
  | (m, .restore data) => (m.answer (.restore data)).isOk
  | _ => false

/-- A step of a running machine where there is an instruction to fetch. -/
def fetches : Machine × Call → Bool
  | (m, .step) => m.haltReason.isNone && decide (m.state.pc.toNat < 0xFFF)
  | _ => false

/-- The machines as they were before each of the steps since the last load or restore, the latest first. -/
def stepsSince (m : Machine) (cs : List Call) : List Machine :=
  (((m.journal cs).takeWhile (!clears ·)).filter fetches).map Prod.fst

/-- What is remembered of a step. -/
def traced (m : Machine) : TraceEntry :=
  let w := m.state.memory.word m.state.pc.toNat
  ⟨m.state.pc, w, disassemble (some m.dialect) w.toNat⟩

/-- The first entries, as many as the limit allows. -/
def latest (limit : Option Nat) (entries : List TraceEntry) : List TraceEntry :=
  match limit with
  | some n => entries.take n
  | none => entries

theorem journal_concat (m : Machine) (cs : List Call) (c : Call) :
    m.journal (cs ++ [c]) = (m.afterAll cs, c) :: m.journal cs := by
  induction cs generalizing m with
  | nil => rfl
  | cons d cs ih => exact congrArg (· ++ [(m, d)]) (ih (m.after d))

theorem stepsSince_concat (m : Machine) (cs : List Call) (c : Call) : m.stepsSince (cs ++ [c]) =
    if clears (m.afterAll cs, c) then []
    else if fetches (m.afterAll cs, c) then m.afterAll cs :: m.stepsSince cs
    else m.stepsSince cs := by
  rw [stepsSince, journal_concat, List.takeWhile_cons]
  cases clears (m.afterAll cs, c) with
  | true => rfl
  | false => cases hf : fetches (m.afterAll cs, c) <;> simp [hf, stepsSince]

theorem latest_nil (limit : Option Nat) : latest limit [] = [] := by
  cases limit with
  | none => rfl
  | some n => exact List.take_nil

/-- An entry that falls off a full history would not be in it after the next one either. -/
theorem latest_cons_latest (limit : Option Nat) (e : TraceEntry) (entries : List TraceEntry) :
    latest limit (e :: latest limit entries) = latest limit (e :: entries) := by
  cases limit with
  | none => rfl
  | some n =>
      cases n with
      | zero => rfl
      | succ n => simp [latest, List.take_take]

/-! ## Histories after a call -/

theorem currentOpcode?_eq (m : Machine) : m.currentOpcode? = m.state.opcode? := by
  cases hw : m.state.opcode? with
  | none => exact if_pos (State.opcode?_eq_none.mp hw)
  | some w =>
      obtain ⟨hpc, rfl⟩ := State.opcode?_eq_some.mp hw
      refine (if_neg (Nat.not_le_of_lt hpc)).trans (congrArg some ?_)
      exact BitVec.setWidth_append_eq_shiftLeft_setWidth_or.symm.trans (BitVec.setWidth_eq _)

theorem settle_history (m : Machine) : m.settle.2.history = m.history := by
  rw [settle]
  split
  · split <;> rfl
  · rfl

theorem step_history (m : Machine) : (m.after .step).history =
    if fetches (m, .step) then latest m.traceLength (m.traced :: m.history) else m.history := by
  rw [after, fetches]
  cases hr : m.haltReason with
  | some r =>
      rw [step_of_halt hr]
      rfl
  | none =>
      simp only [step, hr, currentOpcode?_eq]
      cases hw : m.state.opcode? with
      | none =>
          have hpc : ¬m.state.pc.toNat < 0xFFF := Nat.not_lt_of_le (State.opcode?_eq_none.mp hw)
          rw [settle_history, decide_eq_false hpc]
          rfl
      | some w =>
          obtain ⟨hlt, rfl⟩ := State.opcode?_eq_some.mp hw
          have hpc : m.state.pc.toNat < 0xFFF := hlt
          rw [settle_history, decide_eq_true hpc]
          rfl

theorem run_history (m : Machine) (n : Int) (progress : Bool) :
    (m.after (.run n progress)).history = m.history := by
  rw [after]
  cases hr : m.haltReason with
  | some r => rw [run_of_halt hr]
  | none =>
      simp only [run, hr]
      exact settle_history _

theorem load_history (m : Machine) (program : List Byte) : (m.after (.load program)).history =
    if clears (m, .load program) then [] else m.history := by
  cases h : m.state.load program m.entry with
  | error e =>
      obtain ⟨hload, hafter⟩ := after_load_of_error h
      rw [hafter, clears, answer, hload]
      rfl
  | ok t =>
      obtain ⟨hload, hafter⟩ := after_load_of_ok h
      rw [hafter, clears, answer, hload]
      rfl

/-- A saved machine has no fault that a restore could not name. -/
theorem restore_history {data : Bytes} (m : Machine) (hc : (Call.restore data).RestoresSaved) :
    (m.after (.restore data)).history = if clears (m, .restore data) then [] else m.history := by
  obtain ⟨m', hm', hdata⟩ := hc data rfl
  have hout := m.restore_outcome data
  rw [after, clears, answer]
  generalize (m.restore data).1 = result, (m.restore data).2 = m'' at hout
  cases hout with
  | refused | running | halted => rfl
  | unnamed h hf =>
      rw [← hdata, save, State.restore_save] at h
      cases h
      exact absurd hm'.coherent.fault_le (Nat.not_le_of_lt hf)

theorem after_history (m : Machine) (hc : c.RestoresSaved) : (m.after c).history =
    if clears (m, c) then []
    else if fetches (m, c) then latest m.traceLength (m.traced :: m.history)
    else m.history := by
  cases c with
  | load program => exact m.load_history program
  | restore data => exact m.restore_history hc
  | step => exact m.step_history
  | run n progress => exact m.run_history n progress
  | setKey k pressed => exact replace_cases (p := (·.history = m.history)) rfl fun _ _ => rfl
  | writeByte a value => exact replace_cases (p := (·.history = m.history)) rfl fun _ _ => rfl
  | tick | save | isHalted | soundOn | getKey | pixelAt | framebuffer | readByte => rfl

/-! ## Histories after many calls -/

theorem afterAll_history (hm : m.history = []) (hcs : ∀ c ∈ cs, c.RestoresSaved) :
    (m.afterAll cs).history = latest m.traceLength ((m.stepsSince cs).map traced) := by
  induction cs using List.reverseRecOn with
  | nil => exact hm.trans (latest_nil m.traceLength).symm
  | append_singleton cs c ih =>
      have hlength : (m.afterAll cs).traceLength = m.traceLength :=
        (m.afterAll_sameSettings cs).traceLength
      have hhistory := ih fun d hd => hcs d (List.mem_append_left [c] hd)
      have hlast : c.RestoresSaved := hcs c (by simp)
      rw [afterAll_concat, after_history _ hlast, stepsSince_concat]
      split
      · exact (latest_nil m.traceLength).symm
      · split
        · rw [hlength, hhistory, List.map_cons, latest_cons_latest]
        · exact hhistory

/-! ## The machines of a journal -/

theorem Reachable.after (hm : m.Reachable) (hc : c.RestoresSaved) : (m.after c).Reachable := by
  cases c with
  | restore data =>
      obtain ⟨m', hm', rfl⟩ := hc data rfl
      exact hm.restore hm'
  | _ => exact hm.call nofun

theorem Reachable.afterAll (hm : m.Reachable) (hcs : ∀ c ∈ cs, c.RestoresSaved) :
    (m.afterAll cs).Reachable := by
  induction cs generalizing m with
  | nil => exact hm
  | cons c cs ih =>
      exact ih (hm.after (hcs c List.mem_cons_self)) fun d hd => hcs d (List.mem_cons_of_mem c hd)

theorem exists_of_mem_journal {n : Machine} (h : (n, c) ∈ m.journal cs) :
    ∃ ds, ds <+: cs ∧ n = m.afterAll ds := by
  induction cs generalizing m with
  | nil => cases h
  | cons d cs ih =>
      rw [journal, List.mem_append, List.mem_singleton] at h
      rcases h with h | h
      · obtain ⟨ds, hds, rfl⟩ := ih h
        exact ⟨d :: ds, List.cons_prefix_cons.mpr ⟨rfl, hds⟩, rfl⟩
      · cases h
        exact ⟨[], List.nil_prefix, rfl⟩

theorem exists_of_mem_stepsSince {n : Machine} (h : n ∈ m.stepsSince cs) :
    (∃ ds, ds <+: cs ∧ n = m.afterAll ds) ∧ n.haltReason = none ∧ n.state.pc.toNat < 0xFFF := by
  obtain ⟨⟨n, c⟩, hp, rfl⟩ := List.mem_map.mp h
  obtain ⟨hjournal, hfetches⟩ := List.mem_filter.mp hp
  refine ⟨exists_of_mem_journal ((List.takeWhile_sublist _).subset hjournal), ?_⟩
  cases c with
  | step => simpa [fetches] using hfetches
  | _ => cases hfetches

/-! ## What a history tells -/

/-- A history is of the latest steps since the machine was made, loaded or restored that began while it was
running and had a word to fetch, as many as the trace length allows and the latest first. An entry has the
address of the step, the word that it fetched, and the text of the word. The text is one of data exactly if
the step halted the machine because the word at this address has no instruction. -/
theorem history_lists_steps {entry seed : Int} {traceLength : Option Int} {dialect : Dialect}
    {logger : Logger} (hm : create entry seed traceLength dialect logger = .ok m)
    (hcs : ∀ c ∈ cs, c.RestoresSaved) :
    (m.afterAll cs).history = latest (traceLength.map Int.toNat) ((m.stepsSince cs).map traced) ∧
    ∀ n ∈ m.stepsSince cs, ∃ w, n.state.fetch = (n.state.advanced, some w) ∧
      n.traced = ⟨n.state.pc, w, disassemble (some dialect) w.toNat⟩ ∧
      ("DW".toList <+: n.traced.text.toList ↔ (n.after .step).haltReason =
        some ⟨.illegalOpcode w.toNat, some n.state.pc.toNat⟩) := by
  obtain ⟨rng, -, hnew⟩ := create_eq_ok hm
  constructor
  · rw [afterAll_history (by rw [hnew]) hcs, hnew]
  · intro n hn
    obtain ⟨⟨ds, hds, rfl⟩, hr, hpc⟩ := exists_of_mem_stepsSince hn
    have hc : (m.afterAll ds).Coherent :=
      ((Reachable.create hm).afterAll fun c hc => hcs c (hds.subset hc)).coherent
    have hdialect : (m.afterAll ds).dialect = dialect :=
      (m.afterAll_sameSettings ds).dialect.trans (by rw [hnew])
    generalize m.afterAll ds = n at hr hpc hc hdialect
    have hf : n.state.fault = 0 := hc.haltReason_eq_none.mp hr
    obtain ⟨w, hw, -⟩ := State.exists_opcode hpc
    have htraced : n.traced = ⟨n.state.pc, w, disassemble (some dialect) w.toNat⟩ := by
      rw [traced, (State.opcode?_eq_some.mp hw).2, hdialect]
    refine ⟨w, State.fetch_of_running hf hw, htraced, ?_⟩
    rw [htraced, prefix_disassemble, hc.step.haltReason_eq_some_iff, after, step_state hr,
      State.step_illegal_iff hf hw]

/-- Is restored as new, and then halted by the last of three steps, of which it remembers two. -/
theorem history_lists_steps_two :
    let m := { blank with traceLength := some 2 }
    let cs : List Call := [.restore blank.save, .load [0x60, 0x05, 0x70, 0x01, 0x00, 0x00],
      .step, .step, .tick, .step, .step]
    create 0x200 0 (some 2) {} (.start {} {}) = .ok m ∧ (∀ c ∈ cs, c.RestoresSaved) ∧
      (m.afterAll cs).history =
        [⟨0x204, 0x0000, "DW 0x0000"⟩, ⟨0x202, 0x7001, "ADD V0, 0x01"⟩] := by
  intro m cs
  have hcreate : create 0x200 0 (some 2) {} (.start {} {}) = .ok m := rfl
  have hblank : create 0x200 0 (some 16) {} (.start {} {}) = .ok blank := rfl
  have hcs : ∀ c ∈ cs, c.RestoresSaved := by
    rintro c hc data rfl
    obtain rfl : data = blank.save := by simpa [cs] using hc
    exact ⟨blank, .create hblank, rfl⟩
  have hrestore : m.after (.restore blank.save) = m := by
    rw [after, restore, save, State.restore_save]
    rfl
  obtain ⟨hhistory, -⟩ := history_lists_steps hcreate hcs
  refine ⟨hcreate, hcs, hhistory.trans ?_⟩
  rw [stepsSince, journal, hrestore]
  decide +kernel

end Machine

end ChipEight
