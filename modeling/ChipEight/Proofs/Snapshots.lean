import ChipEight.Proofs.Lemmas.Leaves
import ChipEight.Proofs.SingleSteps

/-!
# Snapshots and restored machines

A snapshot gives back the state that it was taken of, and saving that state again gives the same bytes
(`restore_save_faithful`). A restore from leaves with the shapes of a state that fails leaves the machine
alone but for one case: the number of a fault is looked at after the state was replaced
(`restore_atomic_iff`).
-/

namespace ChipEight

/-! ## Saving and restoring -/

namespace State

theorem save_with_dialect (s : State) (dialect : Dialect) :
    { s with dialect := dialect }.save = s.save := rfl

/-- Every snapshot is accepted, whatever the template, and what it is restored to differs from the saved
state in the dialect only and has the same snapshot. -/
theorem restore_save_faithful (s t : State) :
    t.restore s.save = .ok { s with dialect := t.dialect } ∧
      ∀ r, t.restore s.save = .ok r → r.save = s.save := by
  have hrestore := restore_save s t
  refine ⟨hrestore, fun r hr => ?_⟩
  rw [hrestore] at hr
  cases hr
  exact s.save_with_dialect t.dialect

section Leaves

variable {t : State} {data : Bytes}

theorem restore_of_missing {e : SnapshotError} (h : Snapshot.Leaves.ofData data = .error e) :
    t.restore data = .error e := by
  rw [restore, h]
  rfl

theorem restore_of_typed {l : Snapshot.Leaves} (h : Snapshot.Leaves.ofData data = .ok l) (hl : l.Typed) :
    ∃ s, t.restore data = .ok s := by
  obtain ⟨s, hs⟩ := Snapshot.Leaves.state_iff_typed.mpr hl
  exact ⟨s, bind_eq_ok.mpr ⟨l, h, hs⟩⟩

end Leaves

end State

/-! ## Restoring a machine -/

namespace Machine

/-- What a restore comes to. A fault that has no name is an error, but the state is the new one. -/
inductive RestoreOutcome (m : Machine) (data : Bytes) : Except RestoreError Unit → Machine → Prop
  | refused {e : SnapshotError} (h : m.state.restore data = .error e) :
      RestoreOutcome m data (.error (.snapshot e)) m
  | running {s : State} (h : m.state.restore data = .ok s) (hf : s.fault = 0) :
      RestoreOutcome m data (.ok ()) { m with state := s, history := [], haltReason := none }
  | halted {s : State} {r : Halt} (h : m.state.restore data = .ok s) (hf : s.fault ≠ 0)
      (hle : s.fault.toNat ≤ 4) (hr : s.haltReason = .ok r) :
      RestoreOutcome m data (.ok ()) { m with state := s, history := [], haltReason := some r }
  | unnamed {s : State} (h : m.state.restore data = .ok s) (hf : 4 < s.fault.toNat) :
      RestoreOutcome m data (.error (.unnamedFault .unknown)) { m with state := s, history := [] }

theorem restore_of_error {m : Machine} {data : Bytes} {e : SnapshotError}
    (h : m.state.restore data = .error e) : m.restore data = (.error (.snapshot e), m) := by
  simp only [restore, h]

theorem restore_of_unnamed {m : Machine} {data : Bytes} {s : State}
    (h : m.state.restore data = .ok s) (hf : 4 < s.fault.toNat) :
    m.restore data = (.error (.unnamedFault .unknown), { m with state := s, history := [] }) := by
  have hhalted : s.isHalted = true := State.isHalted_eq_true.mpr fun h0 => by simp [h0] at hf
  simp only [restore, h, hhalted, if_true, State.haltReason_of_gt hf]

theorem restore_outcome (m : Machine) (data : Bytes) :
    RestoreOutcome m data (m.restore data).1 (m.restore data).2 := by
  cases h : m.state.restore data with
  | error e =>
      rw [restore_of_error h]
      exact .refused h
  | ok s =>
      by_cases hf : s.fault = 0
      · simp only [restore, h, State.isHalted_eq_false.mpr hf]
        exact .running h hf
      · by_cases hle : s.fault.toNat ≤ 4
        · obtain ⟨f, hr, -⟩ := State.haltReason_of_le hf hle
          simp only [restore, h, State.isHalted_eq_true.mpr hf, if_true, hr]
          exact .halted h hf hle hr
        · have hgt := Nat.lt_of_not_le hle
          rw [restore_of_unnamed h hgt]
          exact .unnamed h hgt

/-- Data without all the leaves of a state are refused, and the machine is left as it was. Leaves of the right
shapes make up a state, whatever is in them. An error then leaves the machine as it was unless the fault of that
state has no name. Such data replace the state and clear the history, which goes unnoticed only where there is
nothing to lose, and the reason of an earlier halt is kept. -/
theorem restore_atomic_iff (m : Machine) {data : Bytes} (hdata : Snapshot.Typed data) :
    (∀ e, Snapshot.Leaves.ofData data = .error e → m.restore data = (.error (.snapshot e), m)) ∧
    (∀ l, Snapshot.Leaves.ofData data = .ok l → ∃ s, m.state.restore data = .ok s) ∧
    ((∀ e, (m.restore data).1 = .error e → (m.restore data).2 = m) ↔
      ∀ s, m.state.restore data = .ok s → 4 < s.fault.toNat → s = m.state ∧ m.history = []) ∧
    ∀ s, m.state.restore data = .ok s → 4 < s.fault.toNat →
      m.restore data = (.error (.unnamedFault .unknown), { m with state := s, history := [] }) := by
  refine ⟨fun e he => restore_of_error (State.restore_of_missing he),
    fun l hl => State.restore_of_typed hl (hdata.leaves l hl),
    ⟨fun hatomic s h hf => ?_, fun hcond e he => ?_⟩, fun s => restore_of_unnamed⟩
  · have hrestore := restore_of_unnamed h hf
    have hsame : { m with state := s, history := [] } = m := by
      simpa only [hrestore] using hatomic (.unnamedFault .unknown) (by rw [hrestore])
    exact ⟨congrArg state hsame, (congrArg history hsame).symm⟩
  · have hout := m.restore_outcome data
    generalize (m.restore data).1 = result, (m.restore data).2 = m' at he hout
    cases hout with
    | refused => rfl
    | running | halted => cases he
    | unnamed h hf =>
        -- The only error behind the replacement, which the condition makes one by the same state.
        obtain ⟨rfl, hhistory⟩ := hcond _ h hf
        rw [← hhistory]

/-- With an instruction in its history. -/
def stepped : Machine := { blank with history := [⟨0x200, 0x6001, "LD V0, 0x01"⟩] }

/-- A state with a number that names no fault. -/
def unnamed : State := { blank.state with fault := 7 }

theorem restore_atomic_iff_unnamed :
    Snapshot.Typed unnamed.save ∧
      (∃ e, (stepped.restore unnamed.save).1 = .error e ∧ (stepped.restore unnamed.save).2 ≠ stepped) ∧
      stepped.restore unnamed.save =
        (.error (.unnamedFault .unknown), { stepped with state := unnamed, history := [] }) := by
  have htyped := Snapshot.save_typed unnamed
  obtain ⟨-, -, -, hunnamed⟩ := restore_atomic_iff stepped htyped
  have hrestore := hunnamed unnamed (State.restore_save unnamed stepped.state) (by decide)
  refine ⟨htyped, ⟨_, congrArg Prod.fst hrestore, fun hsame => ?_⟩, hrestore⟩
  rw [hrestore] at hsame
  cases congrArg history hsame

theorem restore_not_atomic : ¬∀ (m : Machine) (data : Bytes) (e : RestoreError),
    (m.restore data).1 = .error e → (m.restore data).2.state = m.state ∧
      (m.restore data).2.history = m.history ∧ (m.restore data).2.haltReason = m.haltReason := by
  intro h
  have hrestore := restore_of_unnamed (m := stepped) (State.restore_save unnamed stepped.state) (by decide)
  obtain ⟨-, hhistory, -⟩ := h stepped _ _ (congrArg Prod.fst hrestore)
  rw [hrestore] at hhistory
  cases hhistory

end Machine

end ChipEight
