import ChipEight.Proofs.Footprint
import ChipEight.Proofs.HostCalls

/-!
# Random numbers

The random key of a machine is the key of its seed, moved on once by each load and once by each instruction
that draws a number (`rng_follows_seed`). So no key is drawn from twice, and nothing else has a part in what
is drawn.
-/

namespace ChipEight

namespace State

variable {s : State}

/-! ## Steps -/

/-- The next step draws a random number. -/
def Rolls (s : State) : Prop := s.fault = 0 ∧ s.Fetches .random

instance (s : State) : Decidable s.Rolls := inferInstanceAs (Decidable (_ ∧ _))

theorem Rolls.exists_opcode (h : s.Rolls) : ∃ x nn, s.opcode? = some (Instr.random x nn).toWord := by
  obtain ⟨i, hw, hop⟩ := h.2.exists_opcode nofun
  obtain ⟨x, nn, rfl⟩ := Instr.exists_of_op_random hop
  exact ⟨x, nn, hw⟩

theorem step_of_rolls {x : Reg} {nn : Byte} (h : s.Rolls)
    (hw : s.opcode? = some (Instr.random x nn).toWord) : s.step = s.advanced.random x nn :=
  step_of_instr h.1 hw rfl

theorem Rolls.step_rng (h : s.Rolls) : s.step.rng = s.rng.next := by
  obtain ⟨x, nn, hw⟩ := h.exists_opcode
  rw [step_of_rolls h hw]
  rfl

theorem get_step_of_rolls {x : Reg} {nn : Byte} (h : s.Rolls)
    (hw : s.opcode? = some (Instr.random x nn).toWord) :
    s.step.v.get x = s.rng.split.2.byte &&& nn := by
  rw [step_of_rolls h hw, random_eq]
  exact State.get_setReg_self ..

theorem step_rng_of_not_rolls (h : ¬s.Rolls) : s.step.rng = s.rng := by
  by_cases hs : s.fault = 0
  · have hout := step_outcome hs
    generalize s.step = t at hout
    cases hout with
    | unfetched | undefined | trapped => rfl
    | @executed w i hw hi htrap =>
        obtain rfl := Instr.toWord_of_ofWord? hi
        exact effect_same (p := .rng) fun hop => h ⟨hs, (fetches_iff hw).mpr hop⟩
  · rw [step_of_halted hs]

/-- The states from which a number is drawn in so many steps. -/
def rolls (s : State) : Nat → List State
  | 0 => []
  | n + 1 => (if s.Rolls then [s] else []) ++ s.step.rolls n

end State

/-! ## Chains of keys -/

/-- What moves the random key on. -/
inductive KeyUse where
  | load
  | roll (s : State)

/-- The uses lead from one key to the other, and each number is drawn with the key at its place. -/
structure Key.Chain (k : Key) (us : List KeyUse) (k' : Key) : Prop where
  last : k' = next^[us.length] k
  roll : ∀ i s, us[i]? = some (.roll s) → s.Rolls ∧ s.rng = next^[i] k

namespace Key.Chain

variable {k k' k'' : Key} {us us' : List KeyUse}

theorem nil (k : Key) : Chain k [] k where
  last := rfl
  roll := nofun

theorem load (k : Key) : Chain k [.load] k.next where
  last := rfl
  roll := fun i s h => by
    cases i <;> cases h

theorem append (h : Chain k us k') (h' : Chain k' us' k'') : Chain k (us ++ us') k'' where
  last := by
    rw [h'.last, h.last, List.length_append, Nat.add_comm, Function.iterate_add_apply]
  roll := fun i s hs => by
    rcases Nat.lt_or_ge i us.length with hi | hi
    · rw [List.getElem?_append_left hi] at hs
      exact h.roll i s hs
    · rw [List.getElem?_append_right hi] at hs
      obtain ⟨hrolls, hrng⟩ := h'.roll _ s hs
      rw [h.last, ← Function.iterate_add_apply, Nat.sub_add_cancel hi] at hrng
      exact ⟨hrolls, hrng⟩

end Key.Chain

open Key (Chain)

namespace State

theorem step_chain (s : State) :
    Chain s.rng ((if s.Rolls then [s] else []).map .roll) s.step.rng := by
  by_cases h : s.Rolls
  · rw [if_pos h, h.step_rng]
    refine ⟨rfl, fun i t ht => ?_⟩
    cases i with
    | zero =>
        cases ht
        exact ⟨h, rfl⟩
    | succ i => cases ht
  · rw [if_neg h, step_rng_of_not_rolls h]
    exact .nil _

theorem iterate_chain (s : State) (n : Nat) :
    Chain s.rng ((s.rolls n).map .roll) (step^[n] s).rng := by
  induction n generalizing s with
  | zero => exact .nil _
  | succ n ih =>
      rw [rolls, List.map_append]
      exact s.step_chain.append (ih s.step)

end State

namespace Machine

/-! ## Calls -/

/-- The uses of the key in a call: one if a program is loaded, and one for each number that is drawn. -/
def keyUses (m : Machine) : Call → List KeyUse
  | .load program => if (m.load program).isOk then [.load] else []
  | .step => if m.isHalted then [] else (m.state.rolls 1).map .roll
  | .run n _ => if m.isHalted then [] else (m.state.rolls n.toNat).map .roll
  | _ => []

def allKeyUses (m : Machine) : List Call → List KeyUse
  | [] => []
  | c :: cs => m.keyUses c ++ (m.after c).allKeyUses cs

theorem replace_chain {ε : Type} {m : Machine} {f : State → Machine} {r : Except ε State}
    (hr : ∀ s, r = .ok s → (f s).state.rng = m.state.rng) :
    Chain m.state.rng [] ((r.map f).toOption.getD m).state.rng :=
  replace_cases (p := fun m' => Chain m.state.rng [] m'.state.rng) (.nil _)
    fun s hs => hr s hs ▸ .nil _

theorem after_chain (m : Machine) (c : Call) (hc : ∀ data, c ≠ .restore data) :
    Chain m.state.rng (m.keyUses c) (m.after c).state.rng := by
  cases c with
  | load program =>
      rw [keyUses, after, load_eq_map]
      cases hs : m.state.load program m.entry with
      | error e => exact .nil _
      | ok s =>
          obtain ⟨-, -, -, rfl⟩ := State.load_eq_ok hs
          exact .load _
  | step =>
      rw [keyUses, after, isHalted]
      cases hr : m.haltReason with
      | some r =>
          rw [step_of_halt hr]
          exact .nil _
      | none =>
          rw [step_state hr]
          exact m.state.iterate_chain 1
  | run n progress =>
      rw [keyUses, after, isHalted]
      cases hr : m.haltReason with
      | some r =>
          rw [run_of_halt hr]
          exact .nil _
      | none =>
          rw [run_state hr, State.run_eq_iterate]
          exact m.state.iterate_chain n.toNat
  | tick => exact .nil _
  | setKey k pressed =>
      refine replace_chain fun s hs => ?_
      obtain ⟨keypad, rfl⟩ := State.setKey_eq_ok hs
      rfl
  | writeByte a value =>
      refine replace_chain fun s hs => ?_
      obtain ⟨memory, rfl⟩ := State.writeByte_eq_ok hs
      rfl
  | restore data => exact absurd rfl (hc data)
  | save | isHalted | soundOn | getKey | pixelAt | framebuffer | readByte => exact .nil _

theorem afterAll_chain (m : Machine) (cs : List Call) (hcs : ∀ data, .restore data ∉ cs) :
    Chain m.state.rng (m.allKeyUses cs) (m.afterAll cs).state.rng := by
  induction cs generalizing m with
  | nil => exact .nil _
  | cons c cs ih =>
      have hc : ∀ data, c ≠ .restore data := fun data h => hcs data (h ▸ .head cs)
      have hrest : ∀ data, .restore data ∉ cs := fun data h => hcs data (.tail c h)
      exact (m.after_chain c hc).append (ih (m.after c) hrest)

/-! ## Seeds -/

theorem startKey_eq_ok {seed : Int} {k : Key} (h : State.startKey seed = .ok k) : k = .ofSeed seed := by
  rw [State.startKey] at h
  split at h <;> cases h
  rfl

theorem create_rng {entry seed : Int} {traceLength : Option Int} {dialect : Dialect} {logger : Logger}
    {m : Machine} (h : create entry seed traceLength dialect logger = .ok m) :
    m.state.rng = .ofSeed seed := by
  obtain ⟨rng, hrng, rfl⟩ := create_eq_ok h
  exact startKey_eq_ok hrng

/-- A new machine is called in any way but restored. Its key is the one of the seed, moved on as often as a
program was loaded or a number drawn. The number that is drawn after so many of these, in a step or within a
run, is the one of the key that is split off at this place, masked by the instruction, so that no two draws
share a place. A call in which neither happens leaves the key alone. -/
theorem rng_follows_seed {entry seed : Int} {traceLength : Option Int} {dialect : Dialect}
    {logger : Logger} {m : Machine} (h : create entry seed traceLength dialect logger = .ok m)
    (cs : List Call) (hcs : ∀ data, .restore data ∉ cs) :
    (m.afterAll cs).state.rng = Key.next^[(m.allKeyUses cs).length] (.ofSeed seed) ∧
      (∀ i s, (m.allKeyUses cs)[i]? = some (.roll s) → s.fault = 0 ∧ ∃ x nn,
        s.opcode? = some (Instr.random x nn).toWord ∧
        s.step.v.get x = (Key.next^[i] (.ofSeed seed)).split.2.byte &&& nn) ∧
      ∀ c, (∀ data, c ≠ .restore data) → (m.afterAll cs).keyUses c = [] →
        ((m.afterAll cs).after c).state.rng = (m.afterAll cs).state.rng := by
  have hchain := m.afterAll_chain cs hcs
  rw [create_rng h] at hchain
  refine ⟨hchain.last, fun i s hs => ?_, fun c hc hnone => ?_⟩
  · obtain ⟨hrolls, hkey⟩ := hchain.roll i s hs
    obtain ⟨x, nn, hw⟩ := hrolls.exists_opcode
    refine ⟨hrolls.1, x, nn, hw, ?_⟩
    rw [State.get_step_of_rolls hrolls hw, hkey]
  · have hcall := after_chain (m.afterAll cs) c hc
    rw [hnone] at hcall
    exact hcall.last

/-- Draws two numbers and stops at an undefined word. -/
def rollsTwo : List Byte := [0xC0, 0xFF, 0xC1, 0x0F, 0x00, 0x00]

theorem rng_follows_seed_blank :
    let cs : List Call := [.load rollsTwo, .run 5 true, .step, .load rollsTwo, .tick, .step]
    create 0x200 0 (some 16) {} (.start {} {}) = .ok blank ∧ (∀ data, .restore data ∉ cs) ∧
      (blank.allKeyUses cs).length = 5 ∧
      (blank.afterAll cs).state.rng = Key.next^[5] (.ofSeed 0) := by
  intro cs
  have hcreate : create 0x200 0 (some 16) {} (.start {} {}) = .ok blank := rfl
  have hcs : ∀ data, .restore data ∉ cs := by simp [cs]
  have hlength : (blank.allKeyUses cs).length = 5 := by decide +kernel
  have hrng := (rng_follows_seed hcreate cs hcs).1
  rw [hlength] at hrng
  exact ⟨hcreate, hcs, hlength, hrng⟩

end Machine

end ChipEight
