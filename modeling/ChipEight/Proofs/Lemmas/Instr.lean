import ChipEight.Instr.Decode
import ChipEight.Proofs.Lemmas.Word

/-!
# Words and their instructions

Reading and writing are inverse to each other (`ofWord?_eq_some`), and the words that cannot be read
are those of `Undefined` (`ofWord?_eq_none`).
-/

namespace ChipEight.Instr

/-! ## Reading what was written -/

theorem ofNibble?_nibble (op : AluOp) : AluOp.ofNibble? op.nibble.toNat = some op := by
  cases op <;> rfl

theorem nibble_ne_zero (op : AluOp) : op.nibble.toNat ≠ 0 := by
  cases op <;> decide

theorem ofWord?_toWord (i : Instr) : ofWord? i.toWord = some i := by
  cases i with
  | skipIf c => cases c <;> simp [ofWord?, toWord]
  | alu op x y => simp [ofWord?, toWord, nibble_ne_zero, ofNibble?_nibble]
  | clear | ret => rfl
  | _ => simp [ofWord?, toWord, ofMisc?]

/-! ## Writing what was read -/

theorem val_of_ofNibble? {n : Fin 16} {op : AluOp} (h : AluOp.ofNibble? n.val = some op) :
    n.val = op.nibble.toNat := by
  revert n op
  decide

theorem toWord_of_ofMisc? {w : Word} {i : Instr} (hf : w.family.val = 0xF)
    (h : ofMisc? w.x w.nn.toNat = some i) : i.toWord = w := by
  have hw : ∀ nn : Byte, w.nn.toNat = nn.toNat → Word.ofRegByte 0xF w.x nn = w := fun nn hn => by
    rw [← BitVec.eq_of_toNat_eq hn, Word.ofRegByte_x_nn (by decide) hf]
  unfold ofMisc? at h
  split at h <;> simp only [Option.some.injEq, reduceCtorEq] at h <;> subst h <;>
    exact hw _ (by assumption)

theorem eq_of_ite_eq_some {i j : Instr} {p : Prop} [Decidable p]
    (h : (if p then some i else none) = some j) : p ∧ i = j := by
  simpa using h

/-- The digits that reading checks are those that writing puts down. -/
theorem toWord_of_ofWord? {w : Word} {i : Instr} (h : ofWord? w = some i) : i.toWord = w := by
  match hf : w.family.val, w.family.isLt with
  | 0x0, _ =>
      simp only [ofWord?, hf] at h
      split at h
      · rename_i hw
        cases h
        exact hw.symm
      · obtain ⟨hw, rfl⟩ := eq_of_ite_eq_some h
        exact hw.symm
  | 0x1, _ | 0x2, _ | 0xA, _ | 0xB, _ =>
      simp only [ofWord?, hf] at h
      cases h; exact Word.ofTarget_nnn (by decide) hf
  | 0x3, _ | 0x4, _ | 0x6, _ | 0x7, _ | 0xC, _ =>
      simp only [ofWord?, hf] at h
      cases h; exact Word.ofRegByte_x_nn (by decide) hf
  | 0x5, _ | 0x9, _ =>
      simp only [ofWord?, hf] at h
      obtain ⟨hn, rfl⟩ := eq_of_ite_eq_some h
      exact Word.ofRegReg_x_y (by decide) hf hn
  | 0x8, _ =>
      simp only [ofWord?, hf] at h
      split at h
      · rename_i hn
        cases h
        exact Word.ofRegReg_x_y (by decide) hf hn
      · obtain ⟨op, ho, rfl⟩ := Option.map_eq_some_iff.mp h
        exact Word.ofRegReg_x_y (by decide) hf (val_of_ofNibble? ho)
  | 0xD, _ =>
      simp only [ofWord?, hf] at h
      cases h; exact Word.ofRegReg_x_y_n (by decide) hf
  | 0xE, _ =>
      simp only [ofWord?, hf] at h
      split at h
      · rename_i hb
        cases h
        exact (congrArg (Word.ofRegByte 0xE w.x) hb.symm).trans
          (Word.ofRegByte_x_nn (by decide) hf)
      · obtain ⟨hb, rfl⟩ := eq_of_ite_eq_some h
        exact (congrArg _ hb.symm).trans (Word.ofRegByte_x_nn (by decide) hf)
  | 0xF, _ =>
      simp only [ofWord?, hf] at h
      exact toWord_of_ofMisc? hf h
  | n + 16, hlt => omega

theorem ofWord?_eq_some {w : Word} {i : Instr} : ofWord? w = some i ↔ i.toWord = w :=
  ⟨toWord_of_ofWord?, fun h => h ▸ ofWord?_toWord i⟩

/-! ## Words that cannot be read -/

/-- The low bytes of the defined words of family F. -/
def miscBytes : List Nat := [0x07, 0x0A, 0x15, 0x18, 0x1E, 0x29, 0x33, 0x55, 0x65]

/-- The words without an instruction, by their digits. -/
def Undefined (w : Nat) : Prop :=
  w / 0x1000 = 0x0 ∧ w ≠ 0x00E0 ∧ w ≠ 0x00EE ∨
  w / 0x1000 = 0x5 ∧ w % 0x10 ≠ 0 ∨
  w / 0x1000 = 0x8 ∧ (0x8 ≤ w % 0x10 ∧ w % 0x10 ≤ 0xD ∨ w % 0x10 = 0xF) ∨
  w / 0x1000 = 0x9 ∧ w % 0x10 ≠ 0 ∨
  w / 0x1000 = 0xE ∧ w % 0x100 ≠ 0x9E ∧ w % 0x100 ≠ 0xA1 ∨
  w / 0x1000 = 0xF ∧ w % 0x100 ∉ miscBytes

instance (w : Nat) : Decidable (Undefined w) := inferInstanceAs (Decidable (_ ∨ _))

/-- The nibbles without an operation; zero is a copy. -/
theorem ofNibble?_eq_none {n : Fin 16} (h : n.val ≠ 0) :
    AluOp.ofNibble? n.val = none ↔ 0x8 ≤ n.val ∧ n.val ≤ 0xD ∨ n.val = 0xF := by
  revert n
  decide

theorem ofMisc?_eq_none (x : Reg) (nn : Nat) : ofMisc? x nn = none ↔ nn ∉ miscBytes := by
  unfold ofMisc?
  split <;> simp_all [miscBytes]

theorem ite_ite_eq_none {i j : Instr} {p q : Prop} [Decidable p] [Decidable q] :
    (if p then some i else if q then some j else none) = none ↔ ¬p ∧ ¬q := by
  by_cases hp : p <;> simp [hp]

theorem ofWord?_eq_none {w : Word} : ofWord? w = none ↔ Undefined w.toNat := by
  have hw := w.family_val
  match hf : w.family.val, w.family.isLt with
  | 0x0, _ =>
      rw [hf] at hw
      simp [ofWord?, hf, Undefined, ← hw, ← BitVec.toNat_inj, ite_ite_eq_none]
  | 0x1, _ | 0x2, _ | 0x3, _ | 0x4, _ | 0x6, _ | 0x7, _ | 0xA, _ | 0xB, _ | 0xC, _ | 0xD, _ =>
      rw [hf] at hw
      simp [ofWord?, hf, Undefined, ← hw]
  | 0x5, _ | 0x9, _ =>
      rw [hf] at hw
      simp [ofWord?, hf, Undefined, ← hw, ← Word.n_val]
  | 0x8, _ =>
      rw [hf] at hw
      by_cases hn : w.n.val = 0
      · simp [ofWord?, hf, Undefined, ← hw, ← Word.n_val, hn]
      · simp [ofWord?, hf, Undefined, ← hw, ← Word.n_val, hn, ofNibble?_eq_none hn]
  | 0xE, _ =>
      rw [hf] at hw
      simp [ofWord?, hf, Undefined, ← hw, ← Word.nn_toNat, ← BitVec.toNat_inj, ite_ite_eq_none]
  | 0xF, _ =>
      rw [hf] at hw
      simp [ofWord?, hf, Undefined, ← hw, ← Word.nn_toNat, ofMisc?_eq_none]
  | n + 16, hlt => omega

/-! ## Operations -/

theorem opOfWord_toWord (i : Instr) : Op.ofWord i.toWord = i.op := by
  rw [Op.ofWord, ofWord?_toWord, Op.ofInstr?]

theorem exists_toWord_of_opOfWord {w : Word} (h : Op.ofWord w ≠ .illegal) : ∃ i : Instr, i.toWord = w := by
  cases hi : ofWord? w with
  | none => exact absurd (by rw [Op.ofWord, hi, Op.ofInstr?]) h
  | some i => exact ⟨i, toWord_of_ofWord? hi⟩

variable {i : Instr}

theorem exists_of_op_draw (h : i.op = .draw) : ∃ x y n, i = .draw x y n := by
  cases i with
  | draw x y n => exact ⟨x, y, n, rfl⟩
  | skipIf c => cases c <;> cases h
  | alu op x y => cases op <;> cases h
  | _ => cases h

theorem exists_of_op_random (h : i.op = .random) : ∃ x nn, i = .random x nn := by
  cases i with
  | random x nn => exact ⟨x, nn, rfl⟩
  | skipIf c => cases c <;> cases h
  | alu op x y => cases op <;> cases h
  | _ => cases h

end ChipEight.Instr
