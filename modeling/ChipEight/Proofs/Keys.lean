import ChipEight.Proofs.Lemmas.Access
import ChipEight.Proofs.SingleSteps

/-!
# Keys

Whatever is executed, loaded or refused in between, a key is down exactly if the last one to set it set it down
(`getKey_iff_last_setting`).
-/

namespace ChipEight

/-- What is done to the state of a machine. -/
inductive Deed where
  | setKey (k : Int) (pressed : Datum)
  | releaseAll
  | tick
  | step
  | run (n : Int) (progress : Bool)
  | writeByte (a : Int) (value : Datum)
  | load (program : List Byte) (entry : Int)

/-- What a deed sets a key to. -/
def Deed.setting? (k : Fin 16) : Deed → Option Bool
  | .setKey j pressed => if j = k.val then some pressed.isTrue else none
  | .releaseAll | .load .. => some false
  | .tick | .step | .run .. | .writeByte .. => none

theorem Keypad.get_released (k : Fin 16) : released.get k = false := Vector.getElem_replicate ..

namespace State

/-- The state that a deed leads to, unless it is refused. -/
def attempt (s : State) : Deed → Option State
  | .setKey k pressed => (s.setKey k pressed.isTrue).toOption
  | .releaseAll => some s.releaseAll
  | .tick => some s.tick
  | .step => some s.step
  | .run n progress => some (Machine.advance s n progress).1
  | .writeByte a value => (s.writeByte a value).toOption
  | .load program entry => (s.load program entry).toOption

/-- A deed that is refused leaves the state alone. -/
def perform (s : State) (d : Deed) : State := (s.attempt d).getD s

def performAll (s : State) (ds : List Deed) : State := ds.foldl perform s

/-- The deeds that are not refused. -/
def accepted (s : State) : List Deed → List Deed
  | [] => []
  | d :: ds =>
      if (s.attempt d).isSome then d :: (s.perform d).accepted ds else (s.perform d).accepted ds

/-- What the deeds that are not refused set a key to, one after the other. -/
def settings (s : State) (k : Fin 16) (ds : List Deed) : List Bool :=
  (s.accepted ds).filterMap (·.setting? k)

variable {s t : State} {k : Fin 16} {d : Deed} {ds : List Deed}

theorem settings_cons_of_none (h : s.attempt d = none) : s.settings k (d :: ds) = s.settings k ds := by
  simp [settings, accepted, perform, h]

theorem settings_cons_of_some (h : s.attempt d = some t) :
    s.settings k (d :: ds) = (d.setting? k).toList ++ t.settings k ds := by
  cases hk : d.setting? k <;> simp [settings, accepted, perform, h, hk]

/-! ## Keys after a deed -/

theorem getKey_val (s : State) (k : Fin 16) : s.getKey k.val = .ok (s.keypad.get k) := by
  rw [getKey, checkKey_eq_ok.mpr rfl]
  rfl

theorem run_keypad (s : State) (n : Nat) : (s.run n).keypad = s.keypad :=
  run_invariant (·.keypad = s.keypad) (fun t ht => t.step_keypad.trans ht) rfl n

theorem get_attempt (h : s.attempt d = some t) :
    t.keypad.get k = (d.setting? k).getD (s.keypad.get k) := by
  cases d with
  | setKey j pressed =>
      obtain ⟨i, hi, rfl⟩ := map_eq_ok.mp (toOption_eq_some.mp h)
      obtain rfl := checkKey_eq_ok.mp hi
      refine (Vector.getElem_set i.isLt k.isLt).trans ?_
      simp only [Deed.setting?, Int.natCast_inj]
      split <;> rfl
  | releaseAll =>
      cases h
      exact Keypad.get_released k
  | tick =>
      cases h
      rfl
  | step =>
      cases h
      rw [step_keypad]
      rfl
  | run n progress =>
      cases h
      rw [Machine.advance_state, run_keypad]
      rfl
  | writeByte a value =>
      obtain ⟨memory, rfl⟩ := writeByte_eq_ok (toOption_eq_some.mp h)
      rfl
  | load program entry =>
      obtain ⟨-, -, -, rfl⟩ := load_eq_ok (toOption_eq_some.mp h)
      exact Keypad.get_released k

/-! ## Keys after many deeds -/

theorem get_performAll (s : State) (k : Fin 16) (ds : List Deed) :
    (s.performAll ds).keypad.get k = (s.settings k ds).getLast?.getD (s.keypad.get k) := by
  induction ds generalizing s with
  | nil => rfl
  | cons d ds ih =>
      have hrest : s.performAll (d :: ds) = (s.perform d).performAll ds := rfl
      rw [hrest, perform]
      cases h : s.attempt d with
      | none =>
          rw [settings_cons_of_none h]
          exact ih s
      | some t =>
          rw [settings_cons_of_some h, Option.getD_some, ih t, get_attempt h]
          cases d.setting? k with
          | none => rfl
          | some down => simp [List.getLast?_cons]

/-- A key is down if the last deed to set it set it down, or if none has set it and it was down before. Only the
sixteen keys can be set and looked at. -/
theorem getKey_iff_last_setting (s : State) (ds : List Deed) :
    (∀ k : Fin 16, (s.performAll ds).getKey k.val = .ok true ↔
      (s.settings k ds).getLast? = some true ∨ s.settings k ds = [] ∧ s.getKey k.val = .ok true) ∧
    ∀ (t : State) (k : Int) (e : AccessError),
      (t.getKey k = .error e ↔ ¬(0 ≤ k ∧ k ≤ 0xF) ∧ e = .key k) ∧
      ∀ pressed, t.setKey k pressed = .error e ↔ ¬(0 ≤ k ∧ k ≤ 0xF) ∧ e = .key k := by
  constructor
  · intro k
    rw [getKey_val, getKey_val, get_performAll, ← List.getLast?_eq_none_iff]
    cases (s.settings k ds).getLast? <;> simp
  · intro t k e
    exact ⟨map_eq_error.trans checkKey_eq_error, fun _ => map_eq_error.trans checkKey_eq_error⟩

end State

end ChipEight
