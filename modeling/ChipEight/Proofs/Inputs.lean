import ChipEight.Proofs.Lemmas.Aside
import ChipEight.Proofs.Lemmas.Event
import ChipEight.Proofs.Lemmas.Memory

/-!
# Input and the next step

Input and a step can be taken in either order, unless the word that the step executes observes the input
(`step_accept`).
-/

namespace ChipEight

/-! ## Words that observe input -/

namespace Op

/-- The operations that look at a timer or at the tick, or set a timer. -/
def usesTimers : Op → Bool
  | .readDelay | .setDelay | .setSound | .draw => true
  | _ => false

def readsKeys : Op → Bool
  | .skipPressed | .skipReleased | .waitKey => true
  | _ => false

/-- The number of bytes that an operation reads or writes from the index on. -/
def span (op : Op) (w : Word) : Nat :=
  match op with
  | .draw => w.n.val
  | .storeDecimal => 3
  | .storeRegs | .loadRegs => w.x.val + 1
  | _ => 0

end Op

/-- A sprite does not look at lines behind its last one. -/
theorem Screen.sprite_congr {wrap : Bool} {x : Fin 64} {top : Fin 32} {n : Nat} {line line' : Nat → Byte}
    (h : ∀ r < n, line r = line' r) : sprite wrap x top n line = sprite wrap x top n line' := by
  refine congrArg Vector.ofFn (funext fun y => ?_)
  cases spriteLine? wrap top y with
  | none => rfl
  | some r =>
      simp only
      split
      · rw [h r ‹_›]
      · rfl

namespace State

/-- Executing the word tells whether the input came before. -/
def Observes (s : State) (w : Word) : Input → Prop
  | .tick => (Op.ofWord w).usesTimers
  | .setKey .. | .releaseAll => (Op.ofWord w).readsKeys
  | .writeByte a _ =>
      (s.pc.toNat : Int) ≤ a ∧ a ≤ s.pc.toNat + 1 ∨
        (s.index.toNat : Int) ≤ a ∧ a < s.index.toNat + (Op.ofWord w).span w

instance (s : State) (w : Word) (e : Input) : Decidable (s.Observes w e) :=
  match e with
  | .tick | .setKey .. | .releaseAll => inferInstanceAs (Decidable (_ = _))
  | .writeByte .. => inferInstanceAs (Decidable (_ ∨ _))

variable {s : State} {i : Instr}

/-! ## Ticks -/

theorem tick_aside : Aside tick := .of_devices id id countDown countDown (fun _ => true) id

theorem tick_trap? (h : i.op.usesTimers = false) : s.tick.trap? i = s.trap? i := by
  cases i with
  | draw x y n => cases h
  | _ => rfl

theorem tick_effect (h : i.op.usesTimers = false) : s.tick.effect i = (s.effect i).tick := by
  cases i with
  | readDelay x | setDelay x | setSound x | draw x y n => cases h
  | skipIf c => exact tick_aside.effect_skipIf (by cases c <;> rfl)
  | alu op x y => exact tick_aside.effect_alu rfl rfl
  | waitKey x => exact tick_aside.effect_waitKey rfl
  | random x nn =>
      simp only [effect, random_eq]
      rfl
  | _ => rfl

/-! ## Keys -/

def mapKeypad (f : Keypad → Keypad) (s : State) : State := { s with keypad := f s.keypad }

theorem mapKeypad_aside (f : Keypad → Keypad) : Aside (mapKeypad f) := .of_devices id f id id id id

theorem mapKeypad_trap? (f : Keypad → Keypad) : (s.mapKeypad f).trap? i = s.trap? i := by
  cases i <;> rfl

theorem mapKeypad_holds (f : Keypad → Keypad) {c : Condition} (h : c.op.readsKeys = false) :
    (s.mapKeypad f).holds c = s.holds c := by
  cases c with
  | pressed x | released x => cases h
  | _ => rfl

theorem mapKeypad_effect (f : Keypad → Keypad) (h : i.op.readsKeys = false) :
    (s.mapKeypad f).effect i = (s.effect i).mapKeypad f := by
  cases i with
  | waitKey x => cases h
  | skipIf c => exact (mapKeypad_aside f).effect_skipIf (mapKeypad_holds f h)
  | alu op x y => exact (mapKeypad_aside f).effect_alu rfl rfl
  | random x nn =>
      simp only [effect, random_eq]
      rfl
  | draw x y n => exact (mapKeypad_aside f).effect_draw rfl rfl
  | _ => rfl

/-! ## Bytes in memory -/

def poke (a : Nat) (b : Byte) (s : State) : State := { s with memory := s.memory.write a b }

theorem poke_aside (a : Nat) (b : Byte) : Aside (poke a b) := .of_devices (·.write a b) id id id id id

theorem poke_trap? (a : Nat) (b : Byte) : (s.poke a b).trap? i = s.trap? i := by
  cases i <;> rfl

theorem poke_opcode? {a : Nat} (b : Byte) (h : ∀ w ∈ s.opcode?, ¬Memory.Covers s.pc.toNat 2 a) :
    (s.poke a b).opcode? = s.opcode? := by
  have hpc : (s.poke a b).pc = s.pc := rfl
  cases hw : s.opcode? with
  | none => rwa [opcode?_eq_none, hpc, ← opcode?_eq_none]
  | some w =>
      have hnot := h w hw
      simp only [Memory.Covers] at hnot
      rw [opcode?_eq_some, hpc, poke, s.memory.word_write_of_ne b (by omega) (by omega)]
      exact opcode?_eq_some.mp hw

theorem poke_read {start n a r : Nat} (b : Byte) (h : ¬Memory.Covers start n a) (hr : r < n) :
    (s.poke a b).memory.read (start + r) = s.memory.read (start + r) := by
  simp only [Memory.Covers] at h
  exact s.memory.read_write_of_ne b (by omega)

theorem poke_effect {a : Nat} (b : Byte) (h : ¬Memory.Covers s.index.toNat (i.op.span i.toWord) a) :
    (s.poke a b).effect i = (s.effect i).poke a b := by
  have haside := poke_aside a b
  cases i with
  | skipIf c => exact haside.effect_skipIf (by cases c <;> rfl)
  | alu op x y => exact haside.effect_alu rfl rfl
  | waitKey x => exact haside.effect_waitKey rfl
  | random x nn =>
      simp only [effect, random_eq]
      rfl
  -- The instructions that look at memory look at their span only.
  | draw x y n =>
      have hsprite : (s.poke a b).spriteOf x y n = s.spriteOf x y n := by
        rw [Instr.toWord, Instr.op, Op.span, Word.n_ofRegReg (by decide)] at h
        exact Screen.sprite_congr fun r hr => poke_read b h hr
      refine haside.effect_draw rfl ?_
      rw [draw, draw, hsprite]
      rfl
  | storeDecimal x =>
      have hbytes : (s.memory.write a b).writeBytes s.index.toNat (decimalDigits s.v[x]) =
          (s.memory.writeBytes s.index.toNat (decimalDigits s.v[x])).write a b :=
        s.memory.writeBytes_write_comm b h
      exact congrArg (fun memory => { s with memory }) hbytes
  | storeRegs x =>
      have hlen : (s.v.toList.take (x.val + 1)).length = x.val + 1 := by
        rw [List.length_take, Vector.length_toList]
        omega
      rw [Instr.toWord, Instr.op, Op.span, Word.x_ofRegByte (by decide), ← hlen] at h
      have hbytes := s.memory.writeBytes_write_comm b h
      exact congrArg (fun memory => { s with memory, index := s.indexAfter x }) hbytes
  | loadRegs x =>
      rw [Instr.toWord, Instr.op, Op.span, Word.x_ofRegByte (by decide)] at h
      have hv : ((s.poke a b).loadRegs x).v = (s.loadRegs x).v := by
        refine congrArg Vector.ofFn (funext fun r => ?_)
        split
        · exact poke_read b h (by omega)
        · rfl
      exact congrArg (fun v => { s.poke a b with v, index := s.indexAfter x }) hv
  | _ => rfl

/-! ## Steps -/

theorem step_tick (h : s.fault = 0 → ∀ w ∈ s.opcode?, (Op.ofWord w).usesTimers = false) :
    s.tick.step = s.step.tick := by
  refine tick_aside.step_comm (fun _ => rfl) fun i hs hw => ?_
  have hi := h hs _ hw
  rw [Instr.opOfWord_toWord] at hi
  exact ⟨tick_trap? hi, tick_effect hi⟩

theorem step_mapKeypad (f : Keypad → Keypad)
    (h : s.fault = 0 → ∀ w ∈ s.opcode?, (Op.ofWord w).readsKeys = false) :
    (s.mapKeypad f).step = s.step.mapKeypad f := by
  refine (mapKeypad_aside f).step_comm (fun _ => rfl) fun i hs hw => ?_
  have hi := h hs _ hw
  rw [Instr.opOfWord_toWord] at hi
  exact ⟨mapKeypad_trap? f, mapKeypad_effect f hi⟩

theorem step_poke {a : Nat} (b : Byte) (h : s.fault = 0 → ∀ w ∈ s.opcode?,
    ¬Memory.Covers s.pc.toNat 2 a ∧ ¬Memory.Covers s.index.toNat ((Op.ofWord w).span w) a) :
    (s.poke a b).step = s.step.poke a b := by
  have hfetch (hs : s.fault = 0) : (s.poke a b).opcode? = s.opcode? :=
    poke_opcode? b fun w hw => (h hs w hw).1
  refine (poke_aside a b).step_comm hfetch fun i hs hw => ?_
  have hi := (h hs _ hw).2
  rw [Instr.opOfWord_toWord] at hi
  exact ⟨poke_trap? a b, poke_effect b hi⟩

theorem writeByte_eq_poke {a : Int} {value : Datum} {j : Fin 4096} {b : Byte}
    (ha : checkAddress a = .ok j) (hb : checkByte value = .ok b) (s : State) :
    s.writeByte a value = .ok (s.poke j b) := by
  rw [writeByte, ha, hb, poke, ← Memory.set_eq_write]
  rfl

/-- A host gets the same answer, and the machine ends in the same state, also where the step faults. -/
theorem step_accept (s : State) (e : Input) (h : s.fault = 0 → ∀ w ∈ s.opcode?, ¬s.Observes w e) :
    (s.accept e).map step = s.step.accept e := by
  cases e with
  | tick =>
      exact congrArg Except.ok (step_tick fun hs w hw => Bool.eq_false_iff.mpr (h hs w hw))
  | releaseAll =>
      exact congrArg Except.ok
        (step_mapKeypad (fun _ => Keypad.released) fun hs w hw => Bool.eq_false_iff.mpr (h hs w hw))
  | setKey k pressed =>
      simp only [accept, setKey]
      cases checkKey k with
      | error _ => rfl
      | ok j =>
          exact congrArg Except.ok
            (step_mapKeypad (·.set j pressed) fun hs w hw => Bool.eq_false_iff.mpr (h hs w hw))
  | writeByte a value =>
      cases ha : checkAddress a with
      | error _ =>
          simp only [accept, writeByte, ha]
          rfl
      | ok j =>
          cases hb : checkByte value with
          | error _ =>
              simp only [accept, writeByte, ha, hb]
              rfl
          | ok b =>
              simp only [Observes, checkAddress_eq_ok ha, not_or] at h
              rw [accept, accept, writeByte_eq_poke ha hb, writeByte_eq_poke ha hb]
              refine congrArg Except.ok (step_poke b fun hs w hw => ?_)
              have hout := h hs w hw
              simp only [Memory.Covers]
              omega

/-- Stores two registers from 0x300 on. -/
def storesTwo : State :=
  { rng := ⟨0, 0⟩, memory := Memory.zeroed.writeBytes 0x200 [0xF1, 0x55], index := 0x300 }

theorem step_accept_storesTwo :
    (storesTwo.fault = 0 →
      ∀ w ∈ storesTwo.opcode?, ¬storesTwo.Observes w (.writeByte 0x302 (.int 7))) ∧
      (storesTwo.accept (.writeByte 0x302 (.int 7))).map step =
        storesTwo.step.accept (.writeByte 0x302 (.int 7)) ∧
      storesTwo.Observes 0xF155 (.writeByte 0x301 (.int 7)) := by
  have hw : storesTwo.opcode? = some 0xF155 := by decide +kernel
  have h : storesTwo.fault = 0 →
      ∀ w ∈ storesTwo.opcode?, ¬storesTwo.Observes w (.writeByte 0x302 (.int 7)) := by
    rintro - w h
    cases hw.symm.trans h
    decide +kernel
  exact ⟨h, step_accept storesTwo (.writeByte 0x302 (.int 7)) h, by decide +kernel⟩

end State

end ChipEight
