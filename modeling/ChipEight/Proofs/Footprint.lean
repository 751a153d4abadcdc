import ChipEight.Proofs.Lemmas.Effect
import ChipEight.Proofs.Lemmas.Instr
import ChipEight.Proofs.Lemmas.Memory

/-!
# What a word can change

Executing a word changes only what its operation may change, and an execution that faults changes the fault
and its detail only (`execute_changes_only`).
-/

namespace ChipEight

/-! ## Parts of a state -/

/-- Memory is told apart byte by byte, and the registers one by one. -/
inductive Part where
  | rng
  | byte (a : Fin 4096)
  | pc
  | screen
  | stack
  | delay
  | sound
  | keypad
  | reg (r : Reg)
  | index
  | ticked
  | fault
  | detail
  | dialect
deriving DecidableEq, Repr

/-- The part is the same in both states. -/
def Part.Same (p : Part) (s t : State) : Prop :=
  match p with
  | .rng => t.rng = s.rng
  | .byte a => t.memory.read a = s.memory.read a
  | .pc => t.pc = s.pc
  | .screen => t.screen = s.screen
  | .stack => t.stack = s.stack
  | .delay => t.delay = s.delay
  | .sound => t.sound = s.sound
  | .keypad => t.keypad = s.keypad
  | .reg r => t.v.get r = s.v.get r
  | .index => t.index = s.index
  | .ticked => t.ticked = s.ticked
  | .fault => t.fault = s.fault
  | .detail => t.detail = s.detail
  | .dialect => t.dialect = s.dialect

/-- A state is nothing beside its parts. -/
theorem Part.eq_of_same {s t : State} (h : ∀ p : Part, p.Same s t) : t = s := by
  have hmemory : t.memory = s.memory := Memory.eq_of_read fun a ha => h (.byte ⟨a, ha⟩)
  have hv : t.v = s.v := Vector.ext fun r hr => h (.reg ⟨r, hr⟩)
  obtain ⟨rng, memory, pc, screen, stack, delay, sound, keypad, v, index, ticked, fault, detail,
    dialect⟩ := t
  obtain ⟨⟩ := s
  simp only [State.mk.injEq]
  exact ⟨h .rng, hmemory, h .pc, h .screen, h .stack, h .delay, h .sound, h .keypad, hv, h .index,
    h .ticked, h .fault, h .detail, h .dialect⟩

/-! ## Footprints -/

namespace Op

def canFault : Op → Bool
  | .illegal | .call | .ret | .draw | .storeDecimal | .storeRegs | .loadRegs => true
  | _ => false

/-- The operations that may go on elsewhere than behind their word. So does a draw that waits. -/
def canJump : Op → Bool
  | .jump | .jumpOffset | .call | .ret | .skipEqualByte | .skipDiffersByte | .skipEqualReg
  | .skipDiffersReg | .skipPressed | .skipReleased | .waitKey => true
  | _ => false

/-- The operations with a result for VX and no flag. -/
def assigns : Op → Bool
  | .setByte | .addByte | .copy | .random | .readDelay | .waitKey => true
  | _ => false

/-- The bitwise operations, which have a flag in some dialects. -/
def isLogic : Op → Bool
  | .or | .and | .xor => true
  | _ => false

def isArithmetic : Op → Bool
  | .add | .sub | .subReversed | .shiftRight | .shiftLeft => true
  | _ => false

/-- The parts of a state that an operation may change, where the word names the register `x`. -/
def MayChange (op : Op) (s : State) (x : Reg) : Part → Prop
  | .dialect | .keypad => False
  | .rng => op = .random
  | .byte a =>
      op = .storeDecimal ∧ s.index.toNat ≤ a.val ∧ a.val ≤ s.index.toNat + 2 ∨
        op = .storeRegs ∧ s.index.toNat ≤ a.val ∧ a.val ≤ s.index.toNat + x.val
  | .screen => op = .clear ∨ op = .draw
  | .ticked => op = .draw
  | .stack => op = .call ∨ op = .ret
  | .delay => op = .setDelay
  | .sound => op = .setSound
  | .index =>
      op = .setIndex ∨ op = .addIndex ∨ op = .pointGlyph ∨
        s.dialect.transfersMoveIndex ∧ (op = .storeRegs ∨ op = .loadRegs)
  | .pc => op.canJump ∨ s.dialect.drawsAwaitTick ∧ op = .draw
  | .reg r =>
      r = x ∧ (op.assigns ∨ op.isLogic ∨ op.isArithmetic) ∨
        r = flagReg ∧ (op = .draw ∨ op.isArithmetic ∨ s.dialect.logicClearsFlag ∧ op.isLogic) ∨
        r.val ≤ x.val ∧ op = .loadRegs
  | .fault | .detail => op.canFault

instance (op : Op) (s : State) (x : Reg) (p : Part) : Decidable (op.MayChange s x p) :=
  match p with
  | .dialect | .keypad => inferInstanceAs (Decidable False)
  | .rng | .ticked | .delay | .sound | .fault | .detail => inferInstanceAs (Decidable (_ = _))
  | .byte _ | .screen | .stack | .index | .pc | .reg _ => inferInstanceAs (Decidable (_ ∨ _))

end Op

theorem AluOp.isLogic_op (op : AluOp) : op.op.isLogic = op.isLogic := by
  cases op <;> rfl

theorem AluOp.isArithmetic_op (op : AluOp) : op.op.isArithmetic = !op.isLogic := by
  cases op <;> rfl

namespace State

variable (s : State)

/-! ## Registers -/

theorem get_alu_of_ne {op : AluOp} {r x : Reg} (y : Reg) (hx : r ≠ x)
    (hflag : r = flagReg → s.writesFlag op = false) : (s.alu op x y).v.get r = s.v.get r := by
  by_cases hr : r = flagReg
  · simp only [alu, hflag hr]
    exact s.get_setReg_of_ne _ hx
  · simp only [alu]
    split
    · exact (get_setReg_of_ne _ _ hr).trans (s.get_setReg_of_ne _ hx)
    · exact s.get_setReg_of_ne _ hx

theorem get_loadRegs_of_lt {r x : Reg} (h : x < r) : (s.loadRegs x).v.get r = s.v.get r := by
  simp [loadRegs, Vector.get_eq_getElem, Fin.not_le.mpr h]

/-! ## Effects -/

variable {s} {i : Instr}

theorem effect_same_byte {a : Fin 4096} (h : ¬i.op.MayChange s i.toWord.x (.byte a)) :
    (s.effect i).memory.read a = s.memory.read a := by
  rw [effect_memory]
  cases i with
  | storeDecimal x =>
      refine Memory.read_writeBytes_of_not_covers _ fun ⟨hlow, hhigh⟩ => h (.inl ⟨rfl, hlow, ?_⟩)
      simp only [decimalDigits, List.length_cons, List.length_nil] at hhigh
      omega
  | storeRegs x =>
      refine Memory.read_writeBytes_of_not_covers _ fun ⟨hlow, hhigh⟩ => h (.inr ⟨rfl, hlow, ?_⟩)
      rw [Instr.toWord, Word.x_ofRegByte (by decide)]
      simp only [List.length_take, Vector.length_toList] at hhigh
      omega
  | _ => rfl

theorem effect_same_reg {r : Reg} (h : ¬i.op.MayChange s i.toWord.x (.reg r)) :
    (s.effect i).v.get r = s.v.get r := by
  rw [effect_v]
  cases i with
  | setByte x nn | addByte x nn | copy x y | random x nn | readDelay x =>
      have hx : r ≠ x := fun hr => h (.inl ⟨hr.trans (by simp [Instr.toWord]), .inl rfl⟩)
      exact s.get_setReg_of_ne _ hx
  | alu op x y =>
      simp only [Op.MayChange, Instr.op, AluOp.isLogic_op, AluOp.isArithmetic_op] at h
      have hx : r ≠ x := fun hr =>
        h (.inl ⟨hr.trans (by simp [Instr.toWord]), .inr (by cases op.isLogic <;> simp)⟩)
      refine s.get_alu_of_ne y hx fun hr => ?_
      by_contra hw
      rw [Bool.not_eq_false, writesFlag, Bool.or_eq_true] at hw
      refine h (.inr (.inl ⟨hr, .inr ?_⟩))
      cases hl : op.isLogic <;> simp_all
  | draw x y n =>
      have hr : r ≠ flagReg := fun hr => h (.inr (.inl ⟨hr, .inl rfl⟩))
      simp only
      split
      · rfl
      · exact s.get_setReg_of_ne _ hr
  | waitKey x =>
      have hx : r ≠ x := fun hr => h (.inl ⟨hr.trans (by simp [Instr.toWord]), .inl rfl⟩)
      cases hk : s.keypad.lowestPressed? with
      | none => simp only [waitKey, hk, rewind]
      | some k => simpa only [waitKey, hk] using s.get_setReg_of_ne _ hx
  | loadRegs x =>
      refine s.get_loadRegs_of_lt (Fin.not_le.mp fun hr => h (.inr (.inr ⟨?_, rfl⟩)))
      simpa [Instr.toWord] using hr
  | _ => rfl

theorem effect_same_pc (h : ¬i.op.MayChange s i.toWord.x .pc) : (s.effect i).pc = s.pc := by
  rw [effect_pc]
  cases i with
  | ret | jump nnn | call nnn | jumpOffset nnn | waitKey x => exact absurd (.inl rfl) h
  | skipIf c => exact absurd (.inl (by cases c <;> rfl)) h
  | draw x y n =>
      have hd : s.dialect.drawsAwaitTick = false :=
        Bool.eq_false_iff.mpr fun hd => h (.inr ⟨hd, rfl⟩)
      simp [drawWaits, hd]
  | _ => rfl

/-- What an instruction does in a state in which it has no fault stays within its footprint. -/
theorem effect_same {p : Part} (h : ¬i.op.MayChange s i.toWord.x p) : p.Same s (s.effect i) := by
  cases p with
  | dialect => exact s.effect_dialect i
  | keypad => exact s.effect_keypad i
  | fault => exact s.effect_fault i
  | detail => exact s.effect_detail i
  | byte a => exact effect_same_byte h
  | reg r => exact effect_same_reg h
  | pc => exact effect_same_pc h
  | rng =>
      refine (s.effect_rng i).trans ?_
      cases i with
      | random x nn => exact absurd rfl h
      | _ => rfl
  | screen =>
      refine (s.effect_screen i).trans ?_
      cases i with
      | clear => exact absurd (.inl rfl) h
      | draw x y n => exact absurd (.inr rfl) h
      | _ => rfl
  | ticked =>
      refine (s.effect_ticked i).trans ?_
      cases i with
      | draw x y n => exact absurd rfl h
      | _ => rfl
  | stack =>
      refine (s.effect_stack i).trans ?_
      cases i with
      | call nnn => exact absurd (.inl rfl) h
      | ret => exact absurd (.inr rfl) h
      | _ => rfl
  | delay =>
      refine (s.effect_delay i).trans ?_
      cases i with
      | setDelay x => exact absurd rfl h
      | _ => rfl
  | sound =>
      refine (s.effect_sound i).trans ?_
      cases i with
      | setSound x => exact absurd rfl h
      | _ => rfl
  | index =>
      refine (s.effect_index i).trans ?_
      cases i with
      | setIndex nnn => exact absurd (.inl rfl) h
      | addIndex x => exact absurd (.inr (.inl rfl)) h
      | pointGlyph x => exact absurd (.inr (.inr (.inl rfl))) h
      | storeRegs x | loadRegs x =>
          have hm : s.dialect.transfersMoveIndex = false :=
            Bool.eq_false_iff.mpr fun hm => h (.inr (.inr (.inr ⟨hm, by simp [Instr.op]⟩)))
          simp [indexAfter, hm]
      | _ => rfl

/-! ## Executions -/

theorem trap?_eq_none (h : i.op.canFault = false) : s.trap? i = none := by
  cases i with
  | ret | call nnn | draw x y n | storeDecimal x | storeRegs x | loadRegs x => cases h
  | _ => rfl

theorem execute_cases (s : State) (w : Word) :
    (∃ f, (Op.ofWord w).canFault ∧ s.execute w = s.halt f) ∨
      ∃ i : Instr, i.toWord = w ∧ s.execute w = s.effect i := by
  cases hi : Instr.ofWord? w with
  | none =>
      have hop : Op.ofWord w = .illegal := by rw [Op.ofWord, hi]; rfl
      exact .inl ⟨_, by rw [hop]; rfl, execute_of_undefined hi⟩
  | some i =>
      have hop : Op.ofWord w = i.op := by rw [Op.ofWord, hi]; rfl
      cases hf : s.trap? i with
      | none => exact .inr ⟨i, Instr.toWord_of_ofWord? hi, execute_of_effect hi hf⟩
      | some f =>
          have hcan : i.op.canFault := by
            by_contra hno
            rw [trap?_eq_none (Bool.eq_false_iff.mpr hno)] at hf
            cases hf
          exact .inl ⟨f, hop ▸ hcan, execute_of_trap hi hf⟩

/-- Recording a fault stays within the footprint of every operation that can fault. -/
theorem halt_same {op : Op} {x : Reg} {p : Part} {f : Fault} (hop : op.canFault)
    (h : ¬op.MayChange s x p) : p.Same s (s.halt f) := by
  cases p with
  | fault | detail => exact absurd hop h
  | _ => rfl

/-- Whatever a word changes its operation may change. If a fault is recorded, or its detail, nothing else
is changed. -/
theorem execute_changes_only (s : State) (w : Word) :
    (∀ p : Part, ¬(Op.ofWord w).MayChange s w.x p → p.Same s (s.execute w)) ∧
      ((s.execute w).fault ≠ s.fault ∨ (s.execute w).detail ≠ s.detail → s.execute w =
        { s with fault := (s.execute w).fault, detail := (s.execute w).detail }) := by
  rcases execute_cases s w with ⟨f, hop, he⟩ | ⟨i, rfl, he⟩
  · rw [he]
    exact ⟨fun p hp => halt_same hop hp, fun _ => rfl⟩
  · rw [he, Instr.opOfWord_toWord]
    refine ⟨fun p hp => effect_same hp, fun hchanged => ?_⟩
    rcases hchanged with hf | hd
    · exact absurd (s.effect_fault i) hf
    · exact absurd (s.effect_detail i) hd

/-- Stores three registers in the last bytes of memory. -/
def storesLast : State := { rng := ⟨0, 0⟩, v := Vector.replicate 16 0xAA, index := 0xFFD }

theorem execute_changes_only_storesLast :
    ¬(Op.ofWord 0xF255).MayChange storesLast 2 (.byte 0xFFC) ∧
      (storesLast.execute 0xF255).memory.read 0xFFC = storesLast.memory.read 0xFFC ∧
      (storesLast.execute 0xF355).fault ≠ storesLast.fault ∧
      storesLast.execute 0xF355 = { storesLast with fault := 4, detail := 0x1000 } := by
  have hno : ¬(Op.ofWord 0xF255).MayChange storesLast (Word.x 0xF255) (.byte 0xFFC) := by decide +kernel
  have hfault : (storesLast.execute 0xF355).fault = 4 := by decide +kernel
  have hdetail : (storesLast.execute 0xF355).detail = 0x1000 := by decide +kernel
  have hne : (storesLast.execute 0xF355).fault ≠ storesLast.fault := by rw [hfault]; decide
  have hrest := (execute_changes_only storesLast 0xF355).2 (.inl hne)
  rw [hfault, hdetail] at hrest
  exact ⟨hno, (execute_changes_only storesLast 0xF255).1 _ hno, hne, hrest⟩

end State

end ChipEight
