import ChipEight.Proofs.Lemmas.Access
import ChipEight.Proofs.Snapshots

/-!
# Calls of a host

A halt is recorded twice, as the fault of the state and as the reason that the machine keeps for its host.
Whatever a host calls, in whatever order and whether or not the calls succeed, the two records agree, and
a halted machine gives its reason again and does nothing else (`reachable_coherent`).
-/

namespace ChipEight

/-- What a host asks of a machine. -/
inductive Call where
  | load (program : List Byte)
  | step
  | run (n : Int) (progress : Bool)
  | tick
  | setKey (k : Int) (pressed : Bool)
  | writeByte (a : Int) (value : Datum)
  | restore (data : Bytes)
  | save
  | isHalted
  | soundOn
  | getKey (k : Int)
  | pixelAt (x y : Datum)
  | framebuffer
  | readByte (a : Int)

namespace Machine

/-- The machine after a call, also after one that fails. The calls that only ask leave it alone. -/
def after (m : Machine) : Call → Machine
  | .load program => (m.load program).toOption.getD m
  | .step => m.step.2
  | .run n progress => (m.run n progress).2
  | .tick => m.tick
  | .setKey k pressed => (m.setKey k pressed).toOption.getD m
  | .writeByte a value => (m.writeByte a value).toOption.getD m
  | .restore data => (m.restore data).2
  | .save | .isHalted | .soundOn | .getKey _ | .pixelAt _ _ | .framebuffer | .readByte _ => m

def afterAll (m : Machine) (cs : List Call) : Machine := cs.foldl after m

theorem afterAll_concat (m : Machine) (cs : List Call) (c : Call) :
    m.afterAll (cs ++ [c]) = (m.afterAll cs).after c := by
  rw [afterAll, afterAll, List.foldl_concat]

/-- The machines that calls lead to. They are restored from snapshots of such machines only. -/
inductive Reachable : Machine → Prop
  | create {entry seed : Int} {traceLength : Option Int} {dialect : Dialect} {logger : Logger}
      {m : Machine} (h : create entry seed traceLength dialect logger = .ok m) : Reachable m
  | call {m : Machine} {c : Call} (hm : Reachable m) (hc : ∀ data, c ≠ .restore data) :
      Reachable (m.after c)
  | restore {m m' : Machine} (hm : Reachable m) (hm' : Reachable m') :
      Reachable (m.after (.restore m'.save))

/-! ## Records that agree -/

/-- The machine keeps the halt that its state has a fault for, and none while it has no fault. -/
structure Coherent (m : Machine) : Prop where
  fault_le : m.state.fault.toNat ≤ 4
  reason : m.haltReason = m.state.haltReason.toOption
  dialect : m.state.dialect = m.dialect

variable {m m' : Machine}

/-- Two ways of being coherent: without a fault and a reason, or with both. -/
theorem Coherent.of_running (hf : m.state.fault = 0) (hr : m.haltReason = none)
    (hd : m.state.dialect = m.dialect) : m.Coherent where
  fault_le := by simp [hf]
  reason := by rw [hr, State.haltReason_of_running hf]; rfl
  dialect := hd

theorem Coherent.of_halted {r : Halt} (hle : m.state.fault.toNat ≤ 4) (hr : m.haltReason = some r)
    (hs : m.state.haltReason = .ok r) (hd : m.state.dialect = m.dialect) : m.Coherent where
  fault_le := hle
  reason := by rw [hr, hs]; rfl
  dialect := hd

theorem Coherent.haltReason_eq_none (h : m.Coherent) :
    m.haltReason = none ↔ m.state.fault = 0 := by
  rw [h.reason]
  constructor
  · intro hnone
    by_contra hf
    obtain ⟨f, hr, -⟩ := State.haltReason_of_le hf h.fault_le
    rw [hr] at hnone
    cases hnone
  · intro hf
    rw [State.haltReason_of_running hf]
    rfl

theorem Coherent.haltReason_eq_some (h : m.Coherent) {r : Halt} (hr : m.haltReason = some r) :
    m.state.haltReason = .ok r := by
  rw [h.reason] at hr
  cases hs : m.state.haltReason with
  | error e => rw [hs] at hr; cases hr
  | ok r' => rw [hs] at hr; cases hr; rfl

theorem Coherent.haltReason_eq_some_iff (h : m.Coherent) {r : Halt} :
    m.haltReason = some r ↔ m.state.haltReason = .ok r := by
  refine ⟨h.haltReason_eq_some, fun hr => ?_⟩
  rw [h.reason, hr]
  rfl

/-! ## Calls that keep the program counter, the fault and the dialect -/

theorem Coherent.of_frame {s : State} (h : m.Coherent) (hpc : s.pc = m.state.pc)
    (hfault : s.fault = m.state.fault) (hdetail : s.detail = m.state.detail)
    (hdialect : s.dialect = m.state.dialect) : { m with state := s }.Coherent where
  fault_le := hfault ▸ h.fault_le
  reason := by
    show m.haltReason = s.haltReason.toOption
    rw [h.reason, State.haltReason, State.haltReason, hpc, hfault, hdetail]
  dialect := hdialect.trans h.dialect

/-- A call that is refused leaves the machine alone, so that only the accepted states are to be looked at. -/
theorem replace_cases {ε : Type} {p : Machine → Prop} {f : State → Machine} {r : Except ε State}
    (hrefused : p m) (haccepted : ∀ s, r = .ok s → p (f s)) : p ((r.map f).toOption.getD m) := by
  cases r with
  | error e => exact hrefused
  | ok s => exact haccepted s rfl

theorem Coherent.setKey (h : m.Coherent) (k : Int) (pressed : Bool) :
    (m.after (.setKey k pressed)).Coherent := by
  refine replace_cases h fun s hs => ?_
  obtain ⟨keypad, rfl⟩ := State.setKey_eq_ok hs
  exact h.of_frame rfl rfl rfl rfl

theorem Coherent.writeByte (h : m.Coherent) (a : Int) (value : Datum) :
    (m.after (.writeByte a value)).Coherent := by
  refine replace_cases h fun s hs => ?_
  obtain ⟨memory, rfl⟩ := State.writeByte_eq_ok hs
  exact h.of_frame rfl rfl rfl rfl

/-! ## Calls that replace the state -/

/-- A new machine has the key of its seed, whatever the length of its history. -/
theorem create_eq_ok {entry seed : Int} {traceLength : Option Int} {dialect : Dialect}
    {logger : Logger} (h : create entry seed traceLength dialect logger = .ok m) :
    ∃ rng, State.startKey seed = .ok rng ∧
      m = { entry, traceLength := traceLength.map Int.toNat, dialect, logger,
            state := .fresh rng dialect (.ofInt 16 entry) } := by
  -- The length is only checked, so that what comes behind the check is the same in all cases.
  have hrest : (do
      let rng ← (State.startKey seed).mapError ConfigError.start
      let state ← (State.start rng dialect entry).mapError ConfigError.start
      return { entry, traceLength := traceLength.map Int.toNat, dialect, logger, state }) =
        Except.ok m := by
    unfold create at h
    cases traceLength with
    | none => exact h
    | some length =>
        simp only at h
        split at h
        · cases h
        · exact h
  obtain ⟨rng, hrng, h⟩ := bind_eq_ok.mp hrest
  obtain ⟨s, hs, h⟩ := bind_eq_ok.mp h
  obtain rfl := State.start_eq_ok (mapError_eq_ok.mp hs)
  cases h
  exact ⟨rng, mapError_eq_ok.mp hrng, rfl⟩

def loaded (m : Machine) (program : List Byte) (state : State) : Machine :=
  { m with
    state
    history := []
    haltReason := none
    logger := m.logger.record (.loaded program.length m.entry (some m.dialect)) }

theorem load_eq_map (m : Machine) (program : List Byte) :
    m.load program = (m.state.load program m.entry).map (m.loaded program) := by
  rw [load]
  cases m.state.load program m.entry <;> rfl

theorem Coherent.load (h : m.Coherent) (program : List Byte) :
    (m.after (.load program)).Coherent := by
  rw [after, load_eq_map]
  refine replace_cases h fun s hs => ?_
  obtain ⟨-, -, -, rfl⟩ := State.load_eq_ok hs
  exact .of_running rfl rfl h.dialect

theorem RestoreOutcome.coherent {data : Bytes} {result : Except RestoreError Unit}
    (ho : RestoreOutcome m data result m') (h : m.Coherent)
    (hs : ∀ s, m.state.restore data = .ok s → s.fault.toNat ≤ 4 ∧ s.dialect = m.state.dialect) :
    m'.Coherent := by
  cases ho with
  | refused => exact h
  | running hr hf => exact .of_running hf rfl ((hs _ hr).2.trans h.dialect)
  | halted hr hf hle hreason => exact .of_halted hle rfl hreason ((hs _ hr).2.trans h.dialect)
  | unnamed hr hf => exact absurd (hs _ hr).1 (Nat.not_le_of_lt hf)

theorem Coherent.restore (h : m.Coherent) (h' : m'.Coherent) :
    (m.after (.restore m'.save)).Coherent := by
  refine (m.restore_outcome m'.save).coherent h fun s hs => ?_
  rw [save, State.restore_save] at hs
  cases hs
  exact ⟨h'.fault_le, rfl⟩

/-! ## Steps and runs -/

/-- Settling writes down the fault that has come up. -/
theorem settle_coherent (hr : m.haltReason = none) (hle : m.state.fault.toNat ≤ 4)
    (hd : m.state.dialect = m.dialect) : m.settle.2.Coherent := by
  by_cases hf : m.state.fault = 0
  · rw [settle_of_running hf]
    exact .of_running hf hr hd
  · obtain ⟨f, hs, -⟩ := State.haltReason_of_le hf hle
    rw [settle_of_halted hf hs]
    exact .of_halted hle rfl hs hd

theorem Coherent.settle_twins {s : State} (h : m.Coherent) (hr : m.haltReason = none)
    (hm' : Twins m' { m with state := s }) (hle : s.fault.toNat ≤ 4) (hd : s.dialect = m.state.dialect) :
    m'.settle.2.Coherent := by
  obtain ⟨history, logger, rfl⟩ := hm'
  exact settle_coherent hr hle (hd.trans h.dialect)

theorem step_of_halt {r : Halt} (hr : m.haltReason = some r) : m.step = (.error (.halt r), m) := by
  simp only [Machine.step, hr]

theorem run_of_halt {r : Halt} (hr : m.haltReason = some r) (n : Int) (progress : Bool) :
    m.run n progress = (.error (.halt r), m) := by
  simp only [Machine.run, hr]

theorem Coherent.step (h : m.Coherent) : (m.after .step).Coherent := by
  show m.step.2.Coherent
  cases hr : m.haltReason with
  | some r => rwa [step_of_halt hr]
  | none =>
      obtain ⟨m', hstep, ht⟩ := step_twins hr
      rw [hstep]
      exact h.settle_twins hr ht (State.step_fault_le h.fault_le) m.state.step_dialect

theorem Coherent.run (h : m.Coherent) (n : Int) (progress : Bool) :
    (m.after (.run n progress)).Coherent := by
  show (m.run n progress).2.Coherent
  cases hr : m.haltReason with
  | some r => rwa [run_of_halt hr]
  | none =>
      obtain ⟨m', hrun, ht⟩ := run_eq_settle hr n progress
      rw [hrun]
      refine h.settle_twins hr ht ?_ ?_
      · exact State.run_invariant (·.fault.toNat ≤ 4) (fun _ => State.step_fault_le) h.fault_le _
      · exact State.run_invariant (·.dialect = m.state.dialect)
          (fun s hs => s.step_dialect.trans hs) rfl _

/-! ## All calls -/

theorem Reachable.coherent (h : m.Reachable) : m.Coherent := by
  induction h with
  | create h =>
      obtain ⟨rng, -, rfl⟩ := create_eq_ok h
      exact .of_running rfl rfl rfl
  -- Both machines are coherent, so that the fault which the snapshot brings has a name.
  | restore _ _ ih ih' => exact ih.restore ih'
  | @call m c _ hc ih =>
      cases c with
      | load program => exact ih.load program
      | step => exact ih.step
      | run n progress => exact ih.run n progress
      | tick => exact ih.of_frame rfl rfl rfl rfl
      | setKey k pressed => exact ih.setKey k pressed
      | writeByte a value => exact ih.writeByte a value
      | restore data => exact absurd rfl (hc data)
      | save | isHalted | soundOn | getKey | pixelAt | framebuffer | readByte => exact ih

/-- A reachable machine is halted exactly if its state has a fault. Then it keeps what a host is told of the
number, the detail and the address of the fault, and each step and each run gives this again and leaves
the whole machine as it is. Its dialect is the one of its state. -/
theorem reachable_coherent (h : m.Reachable) :
    (m.haltReason = none ↔ m.state.fault = 0) ∧ m.dialect = m.state.dialect ∧
      ∀ r, m.haltReason = some r →
        Fault.ofNumber m.state.fault.toNat m.state.detail.toNat = .ok r.fault ∧
        r.pc = some (m.state.pc.toNat : Int) ∧
        m.step = (.error (.halt r), m) ∧
        ∀ n progress, m.run n progress = (.error (.halt r), m) := by
  have hm := h.coherent
  refine ⟨hm.haltReason_eq_none, hm.dialect.symm, fun r hr => ?_⟩
  obtain ⟨hfault, hpc⟩ := State.haltReason_eq_ok.mp (hm.haltReason_eq_some hr)
  exact ⟨hfault, hpc, step_of_halt hr, run_of_halt hr⟩

/-- Has returned from nothing, and has been told the time and of a key since. -/
def stray : Machine :=
  (((blank.after (.load [0x00, 0xEE])).after .step).after .tick).after (.setKey 5 true)

theorem stray_reachable : stray.Reachable := by
  have hcreate : create 0x200 0 (some 16) {} (.start {} {}) = .ok blank := rfl
  have hload : (blank.after (.load [0x00, 0xEE])).Reachable := (Reachable.create hcreate).call nofun
  have hstep := hload.call (c := .step) nofun
  have htick := hstep.call (c := .tick) nofun
  exact htick.call nofun

theorem reachable_coherent_stray : stray.Reachable ∧
    stray.haltReason = some ⟨.stackUnderflow, some 0x200⟩ ∧ stray.dialect = stray.state.dialect ∧
    stray.step = (.error (.halt ⟨.stackUnderflow, some 0x200⟩), stray) ∧
    ∀ n progress, stray.run n progress = (.error (.halt ⟨.stackUnderflow, some 0x200⟩), stray) := by
  obtain ⟨-, hdialect, hhalted⟩ := reachable_coherent stray_reachable
  have hr : stray.haltReason = some ⟨.stackUnderflow, some 0x200⟩ := by decide +kernel
  obtain ⟨-, -, hstep, hrun⟩ := hhalted _ hr
  exact ⟨stray_reachable, hr, hdialect, hstep, hrun⟩

end Machine

end ChipEight
