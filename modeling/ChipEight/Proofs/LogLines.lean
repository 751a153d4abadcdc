import ChipEight.Proofs.Histories

/-!
# Lines of the log

A call writes the lines of its events and nothing else (`after_writes`). Whatever a host calls, the lines
that tell of a halt are as many as the steps and runs that halted the machine, each with the text of the
reason (`halts_logged_once`). The line of a run tells how many steps were asked for, which are more than
were taken if one before the last of them faulted (`run_tells_request`).
-/

namespace ChipEight

/-! ## Lines of events -/

namespace LogEvent

/-- The halt that an event tells of. -/
def halt? : LogEvent → Option Halt
  | .halted h => some h
  | _ => none

end LogEvent

/-- Level and message of the line of a halt. -/
def haltLine (h : Halt) : String × String := ("ERROR", "CPU halted: " ++ h.message)

def tellsHalt (line : String × String) : Bool := "CPU halted".toList.isPrefixOf line.2.toList

namespace Logger

variable {l l' l'' : Logger} {es es' : List LogEvent}

/-- Level and message of each line. -/
def entries (l : Logger) : List (String × String) :=
  l.lines.toList.map fun line => (line.level, line.message)

/-- The lines of an event that the threshold admits. -/
def linesOf (l : Logger) (e : LogEvent) : List (String × String) :=
  (e.messages.map fun (level, message) => (level.name, message)).filter fun line => l.admits line.1

/-- The second log is the first one with the lines of events added. Clocks and stamps may differ. -/
structure Writes (l : Logger) (es : List LogEvent) (l' : Logger) : Prop where
  threshold : l'.threshold = l.threshold
  entries : l'.entries = l.entries ++ es.flatMap l.linesOf

theorem admits_of_threshold (h : l'.threshold = l.threshold) : l'.admits = l.admits := by
  funext level
  rw [admits, admits, h]

theorem admits_threshold (l : Logger) : l.admits l.threshold := decide_eq_true (Nat.le_refl _)

theorem write_threshold (l : Logger) (level message : String) :
    (l.write level message).threshold = l.threshold := by
  rw [write]
  split
  · split <;> rfl
  · rfl

theorem write_entries (l : Logger) (level message : String) : (l.write level message).entries =
    l.entries ++ if l.admits level then [(level, message)] else [] := by
  rw [write]
  split
  · split <;> simp [entries, now]
  · simp

theorem record_writes (l : Logger) (e : LogEvent) : l.Writes [e] (l.record e) := by
  have hfold (ms : List (Log.Level × String)) (l : Logger) :
      let l' := ms.foldl (fun l (level, message) => l.write level.name message) l
      l'.threshold = l.threshold ∧ l'.entries = l.entries ++
        (ms.map fun (level, message) => (level.name, message)).filter fun line => l.admits line.1 := by
    induction ms generalizing l with
    | nil => simp
    | cons m ms ih =>
        obtain ⟨hthreshold, hentries⟩ := ih (l.write m.1.name m.2)
        have hsame := l.write_threshold m.1.name m.2
        refine ⟨hthreshold.trans hsame, hentries.trans ?_⟩
        rw [write_entries, admits_of_threshold hsame, List.map_cons, List.filter_cons]
        split <;> simp
  obtain ⟨hthreshold, hentries⟩ := hfold e.messages l
  exact ⟨hthreshold, hentries.trans (by simp [linesOf])⟩

theorem Writes.refl (l : Logger) : l.Writes [] l := ⟨rfl, by simp⟩

theorem Writes.trans (h : l.Writes es l') (h' : l'.Writes es' l'') : l.Writes (es ++ es') l'' where
  threshold := h'.threshold.trans h.threshold
  entries := by
    have hlines : l'.linesOf = l.linesOf := by
      funext e
      rw [linesOf, linesOf, admits_of_threshold h.threshold]
    rw [h'.entries, h.entries, hlines, List.flatMap_append, List.append_assoc]

theorem now_writes (l : Logger) : l.Writes [] l.now.2 := ⟨rfl, by simp [entries, now]⟩

/-! ## Lines of halts -/

/-- No other event has a line that begins like that of a halt. -/
theorem filter_linesOf (h : l.admits "ERROR") (e : LogEvent) :
    (l.linesOf e).filter tellsHalt = e.halt?.toList.map haltLine := by
  cases e with
  | halted r =>
      have hline : l.linesOf (.halted r) = [haltLine r] := by
        simp [linesOf, LogEvent.messages, Log.Level.name, h, haltLine]
      rw [hline]
      simp [LogEvent.halt?, haltLine, tellsHalt]
  | loaded | executed | ran =>
      simp only [linesOf, List.filter_filter, LogEvent.halt?, Option.toList_none, List.map_nil,
        List.filter_eq_nil_iff]
      simp [LogEvent.messages, tellsHalt]

theorem filter_lines (h : l.admits "ERROR") (es : List LogEvent) :
    (es.flatMap l.linesOf).filter tellsHalt = (es.filterMap LogEvent.halt?).map haltLine := by
  induction es with
  | nil => rfl
  | cons e es ih =>
      rw [List.flatMap_cons, List.filter_append, filter_linesOf h, ih]
      cases hr : e.halt? <;> simp [hr]

end Logger

namespace Machine

variable {m : Machine}

/-! ## Lines of a call -/

/-- A machine that was running before it settles logs the reason that it has then. -/
theorem settle_writes (hr : m.haltReason = none) :
    m.logger.Writes (m.settle.2.haltReason.toList.map .halted) m.settle.2.logger := by
  rw [settle]
  split
  · split
    · exact m.logger.record_writes _
    · simpa [hr] using Logger.Writes.refl m.logger
  · simpa [hr] using Logger.Writes.refl m.logger

theorem step_writes (hr : m.haltReason = none) : ∃ es : List LogEvent, es.filterMap LogEvent.halt? = [] ∧
    m.logger.Writes (es ++ m.step.2.haltReason.toList.map .halted) m.step.2.logger := by
  cases hcode : m.currentOpcode? with
  | none =>
      have hstep : m.step = ({ m with state := m.state.step } : Machine).settle := by
        simp only [step, hr, hcode]
      rw [hstep]
      exact ⟨[], rfl, settle_writes (m := { m with state := m.state.step }) hr⟩
  | some opcode =>
      have hstep : m.step = ({ m with state := m.state.step }.note m.state.pc opcode).settle := by
        simp only [step, hr, hcode]
      rw [hstep]
      refine ⟨[.executed m.state.pc.toNat opcode.toNat (some m.dialect)], rfl, ?_⟩
      have hsettle := settle_writes (m := { m with state := m.state.step }.note m.state.pc opcode) hr
      exact (m.logger.record_writes _).trans hsettle

/-- The clock is read before and after the steps, and the line of the run comes before that of a halt. -/
theorem run_writes (hr : m.haltReason = none) (n : Int) (progress : Bool) : ∃ elapsed,
    m.logger.Writes (.ran n elapsed :: (m.run n progress).2.haltReason.toList.map .halted)
      (m.run n progress).2.logger := by
  let elapsed := m.logger.now.2.now.1 - m.logger.now.1
  let timed : Machine :=
    { m with
      state := (advance m.state n progress).1
      logger := m.logger.now.2.now.2.record (.ran n elapsed) }
  have hrun : (m.run n progress).2 = timed.settle.2 := by
    simp only [run, hr, timed, elapsed]
  rw [hrun]
  have htimed : m.logger.Writes [.ran n elapsed] timed.logger :=
    m.logger.now_writes.trans ((Logger.now_writes _).trans (Logger.record_writes ..))
  exact ⟨elapsed, htimed.trans (settle_writes (m := timed) hr)⟩

/-- The reason of the halt that a step or a run takes a running machine to. -/
def haltBy? : Machine × Call → Option Halt
  | (m, .step) => if m.isHalted then none else (m.after .step).haltReason
  | (m, .run n progress) => if m.isHalted then none else (m.after (.run n progress)).haltReason
  | _ => none

/-- A step or a run takes a running machine to a halt. -/
def halting : Machine × Call → Bool
  | (m, .step) => !m.isHalted && (m.after .step).isHalted
  | (m, .run n progress) => !m.isHalted && (m.after (.run n progress)).isHalted
  | _ => false

theorem isSome_haltBy? (p : Machine × Call) : (haltBy? p).isSome = halting p := by
  obtain ⟨m, c⟩ := p
  cases c with
  | step | run => rw [haltBy?, halting]; cases m.isHalted <;> rfl
  | _ => rfl

theorem load_writes (m : Machine) (program : List Byte) : ∃ es : List LogEvent,
    es.filterMap LogEvent.halt? = [] ∧ m.logger.Writes es (m.after (.load program)).logger := by
  rw [after, load_eq_map]
  exact replace_cases (p := fun m' => ∃ es : List LogEvent, es.filterMap LogEvent.halt? = [] ∧
      m.logger.Writes es m'.logger) ⟨[], rfl, .refl _⟩
    fun s _ => ⟨[.loaded program.length m.entry (some m.dialect)], rfl, m.logger.record_writes _⟩

theorem restore_logger (m : Machine) (data : Bytes) : (m.after (.restore data)).logger = m.logger := by
  rw [after]
  have hout := m.restore_outcome data
  generalize (m.restore data).1 = result, (m.restore data).2 = m' at hout
  cases hout <;> rfl

/-- A call that halts the machine writes one line of a halt, and the others write none. -/
theorem after_writes (m : Machine) (c : Call) : ∃ es : List LogEvent,
    es.filterMap LogEvent.halt? = (haltBy? (m, c)).toList ∧ m.logger.Writes es (m.after c).logger := by
  cases c with
  | step =>
      cases hr : m.haltReason with
      | some r =>
          refine ⟨[], by simp [haltBy?, isHalted, hr], ?_⟩
          rw [after, step_of_halt hr]
          exact .refl _
      | none =>
          obtain ⟨es, hes, hwrites⟩ := step_writes hr
          refine ⟨_, ?_, hwrites⟩
          rw [List.filterMap_append, hes, haltBy?, isHalted, hr, after]
          cases m.step.2.haltReason <;> rfl
  | run n progress =>
      cases hr : m.haltReason with
      | some r =>
          refine ⟨[], by simp [haltBy?, isHalted, hr], ?_⟩
          rw [after, run_of_halt hr]
          exact .refl _
      | none =>
          obtain ⟨elapsed, hwrites⟩ := run_writes hr n progress
          refine ⟨_, ?_, hwrites⟩
          rw [haltBy?, isHalted, hr, after]
          cases (m.run n progress).2.haltReason <;> rfl
  | load program => exact m.load_writes program
  | restore data => exact ⟨[], rfl, m.restore_logger data ▸ .refl _⟩
  | setKey k pressed =>
      exact ⟨[], rfl, replace_cases (p := (m.logger.Writes [] ·.logger)) (.refl _) fun _ _ => .refl _⟩
  | writeByte a value =>
      exact ⟨[], rfl, replace_cases (p := (m.logger.Writes [] ·.logger)) (.refl _) fun _ _ => .refl _⟩
  | tick | save | isHalted | soundOn | getKey | pixelAt | framebuffer | readByte => exact ⟨[], rfl, .refl _⟩

/-! ## Lines of many calls -/

theorem afterAll_writes (m : Machine) (cs : List Call) : ∃ es : List LogEvent,
    es.filterMap LogEvent.halt? = (m.journal cs).reverse.filterMap haltBy? ∧
      m.logger.Writes es (m.afterAll cs).logger := by
  induction cs using List.reverseRecOn with
  | nil => exact ⟨[], rfl, .refl _⟩
  | append_singleton cs c ih =>
      obtain ⟨es, hes, hwrites⟩ := ih
      obtain ⟨es', hes', hwrites'⟩ := (m.afterAll cs).after_writes c
      rw [afterAll_concat, journal_concat]
      refine ⟨es ++ es', ?_, hwrites.trans hwrites'⟩
      rw [List.filterMap_append, hes, hes', List.reverse_cons, List.filterMap_append]
      cases h : haltBy? (m.afterAll cs, c) <;> simp [h]

/-- Where a log admits errors, calls write as many lines of halts as there are steps and runs among them that
take the machine from running to halted, and each of these lines has the text of the reason that the machine
keeps from then on. Calls of a halted machine, loads and restores write no such line. -/
theorem halts_logged_once (m : Machine) (h : m.logger.admits "ERROR") (cs : List Call) :
    ∃ written, (m.afterAll cs).logger.entries = m.logger.entries ++ written ∧
      (written.filter tellsHalt).length = (m.journal cs).countP halting ∧
      written.filter tellsHalt = ((m.journal cs).reverse.filterMap haltBy?).map haltLine := by
  obtain ⟨es, hes, hwrites⟩ := m.afterAll_writes cs
  have hlines : (es.flatMap m.logger.linesOf).filter tellsHalt =
      ((m.journal cs).reverse.filterMap haltBy?).map haltLine := by
    rw [Logger.filter_lines h, hes]
  refine ⟨_, hwrites.entries, ?_, hlines⟩
  rw [hlines, List.length_map, List.length_filterMap_eq_countP, List.countP_reverse]
  exact congrArg (List.countP · _) (funext isSome_haltBy?)

/-- A snapshot of a halted machine halts the one that is restored from it. -/
theorem restore_of_halted {m' : Machine} {r : Halt} (hc : m'.Coherent) (hr : m'.haltReason = some r) :
    m.after (.restore m'.save) = { m with
      state := { m'.state with dialect := m.state.dialect }, history := [], haltReason := some r } := by
  have hs : ({ m'.state with dialect := m.state.dialect } : State).haltReason = .ok r :=
    hc.haltReason_eq_some hr
  have hf : ({ m'.state with dialect := m.state.dialect } : State).isHalted = true := by
    refine State.isHalted_eq_true.mpr fun hzero => ?_
    rw [hc.haltReason_eq_none.mpr hzero] at hr
    cases hr
  simp only [after, restore, save, State.restore_save, hf, hs, if_true]

/-- Logs nothing below errors. -/
def terse : Machine := { blank with logger := .start { threshold := "ERROR" } {} }

/-- Is restored as a machine that is halted and gives its reason again, and then runs into two more halts. -/
theorem halts_logged_once_twice :
    let cs : List Call := [.restore stray.save, .step, .load [0x60, 0x01, 0x00, 0x00], .run 5 false,
      .step, .load [0x00, 0xEE], .step]
    terse.logger.admits "ERROR" ∧ ∃ written,
      (terse.afterAll cs).logger.entries = terse.logger.entries ++ written ∧
      written.filter tellsHalt =
        [("ERROR", "CPU halted: Illegal opcode 0x0000 (at PC=0x202)"),
          ("ERROR", "CPU halted: Stack underflow: RET with an empty return stack (at PC=0x200)")] := by
  intro cs
  have hadmits : terse.logger.admits "ERROR" := terse.logger.admits_threshold
  have hreason : stray.haltReason = some ⟨.stackUnderflow, some 0x200⟩ := by decide +kernel
  obtain ⟨written, hentries, -, hhalts⟩ := halts_logged_once terse hadmits cs
  refine ⟨hadmits, written, hentries, hhalts.trans ?_⟩
  rw [journal, restore_of_halted stray_reachable.coherent hreason]
  decide +kernel

end Machine

/-! ## Lines of runs -/

namespace State

variable {s : State} {n k : Nat}

/-- How many of `n` steps begin without a fault. -/
def stepsTaken (s : State) (n : Nat) : Nat := (List.range n).countP fun j => (step^[j] s).fault = 0

theorem stepsTaken_eq_iff : s.stepsTaken n = n ↔ ∀ j < n, (step^[j] s).fault = 0 := by
  have hall : s.stepsTaken n = (List.range n).length ↔ ∀ j ∈ List.range n, (step^[j] s).fault = 0 := by
    simp only [stepsTaken, List.countP_eq_length, decide_eq_true_eq]
  simpa only [List.length_range, List.mem_range] using hall

theorem stepsTaken_of_fault (hk : k < n) (hr : ∀ j ≤ k, (step^[j] s).fault = 0)
    (hf : (step^[k + 1] s).fault ≠ 0) : s.stepsTaken n = k + 1 := by
  induction n, hk using Nat.le_induction with
  | base => exact stepsTaken_eq_iff.mpr fun j hj => hr j (Nat.le_of_lt_succ hj)
  | succ n hk ih =>
      -- Behind the fault the state stays what it is, and no step begins without a fault any more.
      have hn : (step^[n] s).fault ≠ 0 := by
        rw [← run_eq_iterate, run_of_fault hk hf]
        exact hf
      have hlast : [n].countP (fun j => (step^[j] s).fault = 0) = 0 := by simpa using hn
      rw [stepsTaken, List.range_succ, List.countP_append, ← stepsTaken, ih, hlast]

theorem run_stepsTaken (h : s.fault = 0) (n : Nat) : s.run n = step^[s.stepsTaken n] s := by
  rcases first_fault h n with hr | ⟨k, hk, hr, hf⟩
  · rw [stepsTaken_eq_iff.mpr fun j hj => hr j (Nat.le_of_lt hj), run_eq_iterate]
  · rw [stepsTaken_of_fault hk hr hf, run_of_fault hk hf]

end State

namespace Machine

/-- The line of a run tells the number of steps that were asked for. As many were taken exactly if none
before the last of them faulted; otherwise they end with the first step that faults, and the line tells
too many. -/
theorem run_tells_request (m : Machine) (hr : m.haltReason = none) (hf : m.state.fault = 0) (n : Nat)
    (progress : Bool) :
    (∃ elapsed, m.logger.Writes
      (.ran n elapsed :: (m.run n progress).2.haltReason.toList.map .halted) (m.run n progress).2.logger) ∧
    (m.run n progress).2.state = State.step^[m.state.stepsTaken n] m.state ∧
    (m.state.stepsTaken n = n ↔ ∀ j < n, (State.step^[j] m.state).fault = 0) ∧
    ∀ k < n, (∀ j ≤ k, (State.step^[j] m.state).fault = 0) → (State.step^[k + 1] m.state).fault ≠ 0 →
      m.state.stepsTaken n = k + 1 := by
  refine ⟨run_writes hr n progress, ?_, State.stepsTaken_eq_iff, fun k => State.stepsTaken_of_fault⟩
  rw [run_state hr, Int.toNat_natCast, State.run_stepsTaken hf]

/-- The count stands at the beginning of the line. -/
theorem linesOf_ran {l : Logger} (h : l.admits "DEBUG") (n : Int) (elapsed : Float) : ∃ text,
    l.linesOf (.ran n elapsed) = [("DEBUG", text)] ∧
      ("Ran " ++ Numeral.grouped n ++ " ").toList <+: text.toList := by
  have hline : l.linesOf (.ran n elapsed) = (LogEvent.ran n elapsed).messages.map fun m => ("DEBUG", m.2) := by
    simp [Logger.linesOf, LogEvent.messages, Log.Level.name, h]
  refine ⟨_, hline, ?_⟩
  simp only [String.toList_append, List.append_assoc, List.prefix_append_right_inj]
  exact ⟨_, rfl⟩

/-- Has no program, and logs everything. -/
def verbose : Machine := { blank with logger := .start { threshold := "DEBUG" } {} }

theorem verbose_stepsTaken : verbose.state.stepsTaken 1000 = 1 := by
  have hfault : (State.step^[0 + 1] verbose.state).fault ≠ 0 := by decide +kernel
  refine State.stepsTaken_of_fault (by decide) (fun j hj => ?_) hfault
  rw [Nat.le_zero.mp hj]
  rfl

theorem run_tells_request_verbose : verbose.haltReason = none ∧ verbose.state.fault = 0 ∧
    (∃ elapsed, verbose.logger.Writes (.ran (1000 : Nat) elapsed ::
      (verbose.run (1000 : Nat)).2.haltReason.toList.map .halted) (verbose.run (1000 : Nat)).2.logger) ∧
    (verbose.run (1000 : Nat)).2.state = State.step^[1] verbose.state := by
  obtain ⟨hline, hstate, -⟩ := run_tells_request verbose rfl rfl 1000 false
  rw [verbose_stepsTaken] at hstate
  exact ⟨rfl, rfl, hline, hstate⟩

/-- One step was taken, and the line is of a thousand. -/
theorem run_misreports : ¬∀ (m : Machine) (n : Nat), m.haltReason = none → m.state.fault = 0 →
    ∃ elapsed, m.logger.Writes (.ran (m.state.stepsTaken n) elapsed ::
      (m.run n).2.haltReason.toList.map .halted) (m.run n).2.logger := by
  intro h
  obtain ⟨elapsed, htold⟩ := h verbose 1000 rfl rfl
  obtain ⟨elapsed', hran⟩ := run_writes (m := verbose) rfl (1000 : Nat) false
  have hsame := htold.entries.symm.trans hran.entries
  rw [verbose_stepsTaken] at hsame
  simp only [List.append_cancel_left_eq, List.flatMap_cons] at hsame
  have hadmits : verbose.logger.admits "DEBUG" := verbose.logger.admits_threshold
  obtain ⟨text, hlines, htext⟩ := linesOf_ran hadmits (1 : Nat) elapsed
  obtain ⟨text', hlines', htext'⟩ := linesOf_ran hadmits (1000 : Nat) elapsed'
  rw [hlines, hlines'] at hsame
  cases hsame
  have hprefix := List.prefix_of_prefix_length_le htext htext' (by decide +kernel)
  exact absurd hprefix (by decide +kernel)

end Machine

end ChipEight
