import ChipEight.Proofs.HostCalls

/-!
# Restored machines

Machines that differ in their history and their log only give the same answers to a host, and go on doing
so whatever it calls (`Twins.call`). A restored machine and the one that was saved are two of that kind
(`restore_twins`), so that a host cannot tell them apart (`restore_indistinguishable`).
-/

namespace ChipEight

/-! ## Answers -/

inductive Answer where
  | done
  | events (es : List ProgressEvent)
  | flag (on : Bool)
  | byte (b : Byte)
  | screen (s : Screen)
  | data (bytes : Bytes)
deriving DecidableEq, Repr

/-- The error of a call. The text that a host is shown is one of it. -/
inductive Refusal where
  | load (e : LoadError)
  | stop (e : Stop)
  | access (e : AccessError)
  | restore (e : RestoreError)
deriving DecidableEq, Repr

namespace Machine

def reply {ε α : Type} (refuse : ε → Refusal) (give : α → Answer) (r : Except ε α) :
    Except Refusal Answer := (r.mapError refuse).map give

/-- What a host is told in answer to a call. -/
def answer (m : Machine) : Call → Except Refusal Answer
  | .load program => reply .load (fun _ => .done) (m.load program)
  | .step => reply .stop (fun _ => .done) m.step.1
  | .run n progress => reply .stop .events (m.run n progress).1
  | .tick => .ok .done
  | .setKey k pressed => reply .access (fun _ => .done) (m.setKey k pressed)
  | .writeByte a value => reply .access (fun _ => .done) (m.writeByte a value)
  | .restore data => reply .restore (fun _ => .done) (m.restore data).1
  | .save => .ok (.data m.save)
  | .isHalted => .ok (.flag m.isHalted)
  | .soundOn => .ok (.flag m.state.soundOn)
  | .getKey k => reply .access .flag (m.state.getKey k)
  | .pixelAt x y => reply .access .flag (m.state.pixelAt x y)
  | .framebuffer => .ok (.screen m.state.screen)
  | .readByte a => reply .access .byte (m.state.readByte a)

def answers (m : Machine) : List Call → List (Except Refusal Answer)
  | [] => []
  | c :: cs => m.answer c :: (m.after c).answers cs

/-! ## Twins -/

variable {m m' : Machine}

theorem Twins.entry_eq (h : Twins m m') : m.entry = m'.entry := by
  obtain ⟨_, _, rfl⟩ := h
  rfl

theorem Twins.haltReason_eq (h : Twins m m') : m.haltReason = m'.haltReason := by
  obtain ⟨_, _, rfl⟩ := h
  rfl

theorem Twins.with_state (h : Twins m m') (s : State) :
    Twins { m with state := s } { m' with state := s } := by
  obtain ⟨history, logger, rfl⟩ := h
  exact ⟨history, logger, rfl⟩

theorem Twins.step (h : Twins m m') : m.step.1 = m'.step.1 ∧ Twins m.step.2 m'.step.2 := by
  cases hr : m.haltReason with
  | some r =>
      rw [step_of_halt hr, step_of_halt (h.haltReason_eq ▸ hr)]
      exact ⟨rfl, h⟩
  | none =>
      obtain ⟨n, hstep, hn⟩ := step_twins hr
      obtain ⟨n', hstep', hn'⟩ := step_twins (h.haltReason_eq ▸ hr)
      rw [hstep, hstep']
      rw [← h.state_eq] at hn'
      exact (hn.trans ((h.with_state _).trans hn'.symm)).settle

theorem Twins.run (h : Twins m m') (k : Int) (progress : Bool) :
    (m.run k progress).1 = (m'.run k progress).1 ∧
      Twins (m.run k progress).2 (m'.run k progress).2 := by
  cases hr : m.haltReason with
  | some r =>
      rw [run_of_halt hr, run_of_halt (h.haltReason_eq ▸ hr)]
      exact ⟨rfl, h⟩
  | none =>
      obtain ⟨n, hrun, hn⟩ := run_eq_settle hr k progress
      obtain ⟨n', hrun', hn'⟩ := run_eq_settle (h.haltReason_eq ▸ hr) k progress
      rw [← h.state_eq] at hrun' hn'
      obtain ⟨hresult, hsettled⟩ := (hn.trans ((h.with_state _).trans hn'.symm)).settle
      rw [hrun, hrun', hresult]
      exact ⟨rfl, hsettled⟩

theorem Twins.restore (h : Twins m m') (data : Bytes) :
    (m.restore data).1 = (m'.restore data).1 ∧ Twins (m.restore data).2 (m'.restore data).2 := by
  obtain ⟨history, logger, rfl⟩ := h
  simp only [Machine.restore]
  split
  · exact ⟨rfl, _, _, rfl⟩
  · split
    · split
      · exact ⟨rfl, _, _, rfl⟩
      · exact ⟨rfl, _, _, rfl⟩
    · exact ⟨rfl, _, _, rfl⟩

/-- A call that is accepted replaces the state, and one that is refused leaves the machine alone. -/
theorem Twins.replace {ε : Type} {f f' : State → Machine} (h : Twins m m')
    (hf : ∀ s, Twins (f s) (f' s)) (refuse : ε → Refusal) (r : Except ε State) :
    reply refuse (fun _ => .done) (r.map f) = reply refuse (fun _ => .done) (r.map f') ∧
      Twins ((r.map f).toOption.getD m) ((r.map f').toOption.getD m') := by
  cases r with
  | error e => exact ⟨rfl, h⟩
  | ok s => exact ⟨rfl, hf s⟩

theorem Twins.loaded (h : Twins m m') (program : List Byte) (s : State) :
    Twins (m.loaded program s) (m'.loaded program s) := by
  obtain ⟨history, logger, rfl⟩ := h
  exact ⟨_, _, rfl⟩

/-- Twins answer every call in the same way and are twins after it. -/
theorem Twins.call (h : Twins m m') (c : Call) :
    m.answer c = m'.answer c ∧ Twins (m.after c) (m'.after c) := by
  have hstate := h.state_eq
  cases c with
  | load program =>
      rw [answer, answer, after, after, load_eq_map, load_eq_map, hstate, h.entry_eq]
      exact h.replace (h.loaded program) .load _
  | step =>
      obtain ⟨hresult, hafter⟩ := h.step
      exact ⟨congrArg (reply .stop _) hresult, hafter⟩
  | run k progress =>
      obtain ⟨hresult, hafter⟩ := h.run k progress
      exact ⟨congrArg (reply .stop _) hresult, hafter⟩
  | restore data =>
      obtain ⟨hresult, hafter⟩ := h.restore data
      exact ⟨congrArg (reply .restore _) hresult, hafter⟩
  | tick =>
      rw [after, after, tick, tick, hstate]
      exact ⟨rfl, h.with_state _⟩
  | setKey k pressed =>
      rw [answer, answer, after, after, setKey, setKey, hstate]
      exact h.replace h.with_state .access _
  | writeByte a value =>
      rw [answer, answer, after, after, writeByte, writeByte, hstate]
      exact h.replace h.with_state .access _
  | isHalted => exact ⟨by rw [answer, answer, isHalted, isHalted, h.haltReason_eq], h⟩
  | save | soundOn | getKey | pixelAt | framebuffer | readByte =>
      exact ⟨by simp only [answer, save, hstate], h⟩

theorem Twins.calls (h : Twins m m') (cs : List Call) :
    m.answers cs = m'.answers cs ∧ Twins (m.afterAll cs) (m'.afterAll cs) := by
  induction cs generalizing m m' with
  | nil => exact ⟨rfl, h⟩
  | cons c cs ih =>
      obtain ⟨hanswer, hafter⟩ := h.call c
      obtain ⟨hanswers, hend⟩ := ih hafter
      exact ⟨by rw [answers, answers, hanswer, hanswers], hend⟩

/-! ## Settings -/

/-- Both machines were made with the same settings. -/
structure SameSettings (m m' : Machine) : Prop where
  entry : m'.entry = m.entry
  traceLength : m'.traceLength = m.traceLength
  dialect : m'.dialect = m.dialect
  stateDialect : m'.state.dialect = m.state.dialect

theorem SameSettings.refl (m : Machine) : SameSettings m m := ⟨rfl, rfl, rfl, rfl⟩

theorem SameSettings.symm (h : SameSettings m m') : SameSettings m' m :=
  ⟨h.entry.symm, h.traceLength.symm, h.dialect.symm, h.stateDialect.symm⟩

theorem SameSettings.trans {m'' : Machine} (h : SameSettings m m') (h' : SameSettings m' m'') :
    SameSettings m m'' :=
  ⟨h'.entry.trans h.entry, h'.traceLength.trans h.traceLength, h'.dialect.trans h.dialect,
    h'.stateDialect.trans h.stateDialect⟩

theorem Twins.sameSettings (h : Twins m m') : SameSettings m m' := by
  obtain ⟨_, _, rfl⟩ := h
  exact ⟨rfl, rfl, rfl, rfl⟩

theorem with_state_sameSettings {s : State} (h : s.dialect = m.state.dialect) :
    SameSettings m { m with state := s } := ⟨rfl, rfl, rfl, h⟩

theorem settle_sameSettings (m : Machine) : SameSettings m m.settle.2 := by
  rw [settle]
  split
  · split
    · exact ⟨rfl, rfl, rfl, rfl⟩
    · exact .refl m
  · exact .refl m

theorem restore_dialect {s t : State} {data : Bytes} (h : t.restore data = .ok s) :
    s.dialect = t.dialect := by
  obtain ⟨l, -, h⟩ := bind_eq_ok.mp h
  rw [Snapshot.Leaves.state] at h
  repeat obtain ⟨_, -, h⟩ := bind_eq_ok.mp h
  cases h
  rfl

theorem settle_twins_sameSettings {s : State} (hm' : Twins m' { m with state := s })
    (hs : s.dialect = m.state.dialect) : SameSettings m m'.settle.2 :=
  (with_state_sameSettings hs).trans (hm'.symm.sameSettings.trans m'.settle_sameSettings)

/-- No call changes the settings, not even a restore from data of any kind. -/
theorem after_sameSettings (m : Machine) (c : Call) : SameSettings m (m.after c) := by
  cases c with
  | load program =>
      rw [after, load_eq_map]
      refine replace_cases (.refl m) fun s hs => ?_
      obtain ⟨-, -, -, rfl⟩ := State.load_eq_ok hs
      exact ⟨rfl, rfl, rfl, rfl⟩
  | step =>
      rw [after]
      cases hr : m.haltReason with
      | some r => exact step_of_halt hr ▸ .refl m
      | none =>
          obtain ⟨m', hstep, hm'⟩ := step_twins hr
          exact hstep ▸ settle_twins_sameSettings hm' m.state.step_dialect
  | run n progress =>
      rw [after]
      cases hr : m.haltReason with
      | some r => exact run_of_halt hr n progress ▸ .refl m
      | none =>
          obtain ⟨m', hrun, hm'⟩ := run_eq_settle hr n progress
          refine hrun ▸ settle_twins_sameSettings hm' ?_
          exact State.run_invariant (·.dialect = m.state.dialect)
            (fun s hs => s.step_dialect.trans hs) rfl _
  | tick => exact with_state_sameSettings rfl
  | setKey k pressed =>
      refine replace_cases (.refl m) fun s hs => ?_
      obtain ⟨keypad, rfl⟩ := State.setKey_eq_ok hs
      exact with_state_sameSettings rfl
  | writeByte a value =>
      refine replace_cases (.refl m) fun s hs => ?_
      obtain ⟨memory, rfl⟩ := State.writeByte_eq_ok hs
      exact with_state_sameSettings rfl
  | restore data =>
      have hout := m.restore_outcome data
      rw [after]
      generalize (m.restore data).1 = result, (m.restore data).2 = m' at hout
      cases hout with
      | refused => exact .refl m
      | running h | halted h | unnamed h => exact ⟨rfl, rfl, rfl, restore_dialect h⟩
  | save | isHalted | soundOn | getKey | pixelAt | framebuffer | readByte => exact .refl m

theorem afterAll_sameSettings (m : Machine) (cs : List Call) : SameSettings m (m.afterAll cs) := by
  induction cs generalizing m with
  | nil => exact .refl m
  | cons c cs ih => exact (m.after_sameSettings c).trans (ih (m.after c))

theorem create_sameSettings {entry seed seed' : Int} {traceLength : Option Int} {dialect : Dialect}
    {logger logger' : Logger} (h : create entry seed traceLength dialect logger = .ok m)
    (h' : create entry seed' traceLength dialect logger' = .ok m') (cs cs' : List Call) :
    SameSettings (m.afterAll cs) (m'.afterAll cs') := by
  have hnew : SameSettings m m' := by
    obtain ⟨rng, -, rfl⟩ := create_eq_ok h
    obtain ⟨rng', -, rfl⟩ := create_eq_ok h'
    exact ⟨rfl, rfl, rfl, rfl⟩
  exact (m.afterAll_sameSettings cs).symm.trans (hnew.trans (m'.afterAll_sameSettings cs'))

/-! ## Restoring -/

theorem SameSettings.twins (hs : SameSettings m m') (history : List TraceEntry) :
    Twins { m' with state := m.state, history, haltReason := m.haltReason } m := by
  refine ⟨history, m'.logger, ?_⟩
  rw [hs.entry, hs.traceLength, hs.dialect]

/-- All that the course of a machine depends on is in its snapshot or in its settings. The reason of a halt
is made anew, of the fault that it was made of. -/
theorem restore_twins (hm : m.Reachable) (hs : SameSettings m m') :
    (m'.restore m.save).1 = .ok () ∧ Twins (m'.restore m.save).2 m := by
  have hc := hm.coherent
  have hrestore : m'.state.restore m.save = .ok m.state := by
    rw [save, State.restore_save, hs.stateDialect]
  have hout := m'.restore_outcome m.save
  generalize (m'.restore m.save).1 = result, (m'.restore m.save).2 = m'' at hout
  cases hout with
  | refused h => cases hrestore.symm.trans h
  | unnamed h hf =>
      cases hrestore.symm.trans h
      exact absurd hc.fault_le (Nat.not_le_of_lt hf)
  | running h hf =>
      cases hrestore.symm.trans h
      exact ⟨rfl, hc.haltReason_eq_none.mpr hf ▸ hs.twins []⟩
  | halted h hf hle hr =>
      cases hrestore.symm.trans h
      have hreason : m.haltReason = some _ := hc.reason.trans (congrArg Except.toOption hr)
      exact ⟨rfl, hreason ▸ hs.twins []⟩

/-- A machine with the settings of a reachable one takes its snapshot. From then on both give the same
answers and the same errors, and after each call they differ in their history and their log only. -/
theorem restore_indistinguishable (hm : m.Reachable) (hs : SameSettings m m') :
    (m'.restore m.save).1 = .ok () ∧ ∀ cs : List Call,
      (m'.restore m.save).2.answers cs = m.answers cs ∧
      ∃ history logger, (m'.restore m.save).2.afterAll cs = { m.afterAll cs with history, logger } :=
  have ⟨hok, htwins⟩ := restore_twins hm hs
  ⟨hok, htwins.calls⟩

/-- Has set a register, and takes the snapshot of a machine that was told the time and of a key after its
halt. -/
theorem restore_indistinguishable_stray :
    let busy := blank.afterAll [.load [0x60, 0x01], .step]
    stray.Reachable ∧ SameSettings stray busy ∧ busy.history.length = 1 ∧
      (busy.restore stray.save).1 = .ok () ∧
      (busy.restore stray.save).2.answers [.step, .getKey 5, .load [], .run 2 false] =
        [.error (.stop (.halt ⟨.stackUnderflow, some 0x200⟩)), .ok (.flag true), .ok .done,
          .error (.stop (.halt ⟨.illegalOpcode 0, some 0x200⟩))] := by
  intro busy
  have hcreate : create 0x200 0 (some 16) {} (.start {} {}) = .ok blank := rfl
  have hs : SameSettings stray busy :=
    create_sameSettings hcreate hcreate [.load [0x00, 0xEE], .step, .tick, .setKey 5 true] _
  obtain ⟨hok, hsame⟩ := restore_indistinguishable stray_reachable hs
  refine ⟨stray_reachable, hs, by decide +kernel, hok, (hsame _).1.trans ?_⟩
  decide +kernel

end Machine

end ChipEight
