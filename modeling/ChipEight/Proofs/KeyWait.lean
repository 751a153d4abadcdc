import ChipEight.Proofs.Lemmas.Event
import ChipEight.Proofs.Standstill

/-!
# Waiting for a key

A machine that stands at a key wait stays there however long it is stepped and whatever keys go down and up again
between two steps. The first step that meets a pressed key latches the lowest one (`key_wait`).
-/

namespace ChipEight

def Input.isWrite : Input → Bool
  | .writeByte .. => true
  | _ => false

def Event.isWrite : Event → Bool
  | .input e => e.isWrite
  | .step => false

def Event.isStep : Event → Bool
  | .step => true
  | .input _ => false

theorem Keypad.lowestPressed?_eq_some {k : Keypad} {i : Fin 16} :
    k.lowestPressed? = some i ↔ k.get i = true ∧ ∀ j < i, k.get j = false := by
  obtain ⟨keys, hsize⟩ := k
  simp only [lowestPressed?, Vector.findFinIdx?, Option.map_eq_some_iff, Array.findFinIdx?_eq_some_iff, id_eq,
    Bool.not_eq_true]
  constructor
  · rintro ⟨i, ⟨hi, hlower⟩, rfl⟩
    exact ⟨hi, fun j hj => hlower (j.cast hsize.symm) hj⟩
  · rintro ⟨hi, hlower⟩
    exact ⟨i.cast hsize.symm, ⟨hi, fun j hj => hlower (j.cast hsize) hj⟩, rfl⟩

namespace State

variable {s : State} {x : Reg}

/-! ## Input during a wait -/

/-- The next step executes a key wait. -/
structure AwaitsKey (s : State) (x : Reg) : Prop where
  running : s.fault = 0
  word : s.opcode? = some (Instr.waitKey x).toWord

theorem receive_eq_of_not_write {e : Input} (he : e.isWrite = false) :
    ∃ keypad delay sound ticked, s.receive e = { s with keypad, delay, sound, ticked } := by
  cases e with
  | tick | releaseAll => exact ⟨_, _, _, _, rfl⟩
  | writeByte => cases he
  | setKey k pressed =>
      rw [receive, accept]
      cases h : s.setKey k pressed with
      | error _ => exact ⟨_, _, _, _, rfl⟩
      | ok t =>
          obtain ⟨keypad, rfl⟩ := setKey_eq_ok h
          exact ⟨_, _, _, _, rfl⟩

theorem AwaitsKey.receive (h : s.AwaitsKey x) {e : Input} (he : e.isWrite = false) :
    (s.receive e).AwaitsKey x := by
  obtain ⟨_, _, _, _, heq⟩ := receive_eq_of_not_write (s := s) he
  rw [heq]
  exact ⟨h.running, h.word⟩

/-! ## Steps during a wait -/

theorem AwaitsKey.step_of_released (h : s.AwaitsKey x) (hup : ∀ k, s.keypad.get k = false) : s.step = s := by
  have hidles : s.Idles (.waitKey x) := Keypad.lowestPressed?_eq_none.mpr hup
  rw [step_of_instr h.running h.word hidles.trap?, hidles.effect_eq]

theorem AwaitsKey.step_of_pressed (h : s.AwaitsKey x) {k : Fin 16} (hk : s.keypad.lowestPressed? = some k) :
    s.step = { s.setReg x (.ofNat 8 k.val) with pc := s.pc + 2 } := by
  have hadvanced : s.advanced.keypad.lowestPressed? = some k := hk
  rw [step_of_instr h.running h.word rfl, effect, waitKey, hadvanced]
  rfl

/-! ## Waits -/

/-- Every step of the list is taken while all keys are up. -/
def StepsReleased (s : State) : List Event → Prop
  | [] => True
  | .step :: es => (∀ k, s.keypad.get k = false) ∧ s.step.StepsReleased es
  | .input e :: es => (s.receive e).StepsReleased es

/-- Steps that are taken while all keys are up could as well be left out. -/
theorem AwaitsKey.afterAll (h : s.AwaitsKey x) {es : List Event} (hes : ∀ e ∈ es, e.isWrite = false)
    (hup : s.StepsReleased es) :
    s.afterAll es = s.afterAll (es.filter (!·.isStep)) ∧ (s.afterAll es).AwaitsKey x := by
  induction es generalizing s with
  | nil => exact ⟨rfl, h⟩
  | cons e es ih =>
      obtain ⟨he, hrest⟩ := List.forall_mem_cons.mp hes
      cases e with
      | step =>
          obtain ⟨hkeys, hup⟩ := hup
          have hstep : s.after .step = s := h.step_of_released hkeys
          rw [show s.step = s from hstep] at hup
          rw [State.afterAll, List.foldl_cons, hstep]
          exact ih h hrest hup
      | input e => exact ih (h.receive he) hrest hup

/-- A machine at a key wait is handed ticks and keys and stepped in any order. As long as no step has met a pressed
key the steps have left no trace. A step then changes nothing while all keys are up, and else puts the lowest key
that is down into VX and goes on, and changes nothing else. -/
theorem key_wait (s : State) (x : Reg) (hs : s.fault = 0) (hpc : s.pc.toNat < 0xFFF)
    (hw : s.memory.word s.pc.toNat = Word.ofRegByte 0xF x 0x0A) (es : List Event)
    (hes : ∀ e ∈ es, e.isWrite = false) :
    ∀ before after, es = before ++ .step :: after → s.StepsReleased before →
      let t := s.afterAll before
      t = s.afterAll (before.filter (!·.isStep)) ∧
      ((∀ k, t.keypad.get k = false) → t.step = t) ∧
      ∀ k : Fin 16, t.keypad.get k = true → (∀ j < k, t.keypad.get j = false) →
        t.step = { t.setReg x (.ofNat 8 k.val) with pc := t.pc + 2 } := by
  rintro before after rfl hup t
  have h : s.AwaitsKey x := ⟨hs, opcode?_eq_some.mpr ⟨hpc, hw⟩⟩
  obtain ⟨hwithout, ht⟩ := h.afterAll (fun e he => hes e (List.mem_append_left _ he)) hup
  refine ⟨hwithout, ht.step_of_released, ?_⟩
  intro k hdown hlower
  exact ht.step_of_pressed (Keypad.lowestPressed?_eq_some.mpr ⟨hdown, hlower⟩)

/-- Waits for a key in V3. -/
def atKeyWait : State := { rng := ⟨0, 0⟩, memory := Memory.zeroed.writeBytes 0x200 [0xF3, 0x0A] }

/-- A key that goes down and up again between two steps, and two keys that are down at the third one. -/
def twoKeys : List Event :=
  [.step, .input (.setKey 1 true), .input .tick, .input (.setKey 1 false), .step,
    .input (.setKey 9 true), .input (.setKey 4 true), .input (.setKey 16 true)]

theorem key_wait_twoKeys :
    (atKeyWait.fault = 0 ∧ atKeyWait.pc.toNat < 0xFFF ∧
      atKeyWait.memory.word atKeyWait.pc.toNat = Word.ofRegByte 0xF 3 0x0A ∧
      (∀ e ∈ twoKeys ++ [.step, .input .releaseAll, .step], e.isWrite = false) ∧
      atKeyWait.StepsReleased twoKeys) ∧
    atKeyWait.afterAll twoKeys = atKeyWait.afterAll (twoKeys.filter (!·.isStep)) ∧
    (atKeyWait.afterAll twoKeys).step.pc = 0x202 ∧ (atKeyWait.afterAll twoKeys).step.v.get 3 = 4 := by
  have hs : atKeyWait.fault = 0 := rfl
  have hpc : atKeyWait.pc.toNat < 0xFFF := by decide
  have hw : atKeyWait.memory.word atKeyWait.pc.toNat = Word.ofRegByte 0xF 3 0x0A := by decide +kernel
  have hes : ∀ e ∈ twoKeys ++ [.step, .input .releaseAll, .step], e.isWrite = false := by
    simp [twoKeys, Event.isWrite, Input.isWrite]
  have hup : atKeyWait.StepsReleased twoKeys := ⟨by decide +kernel, by decide +kernel, trivial⟩
  obtain ⟨hwithout, -, hpressed⟩ := key_wait atKeyWait 3 hs hpc hw _ hes twoKeys _ rfl hup
  have hstep := hpressed 4 (by decide +kernel) (by decide +kernel)
  refine ⟨⟨hs, hpc, hw, hes, hup⟩, hwithout, ?_⟩
  rw [hstep]
  exact ⟨by decide +kernel, by decide +kernel⟩

end State

end ChipEight
