import ChipEight.Instr.Assembly
import ChipEight.Proofs.Lemmas.Instr

/-!
# Texts of words

A text begins with its mnemonic, and no mnemonic begins like a data word. So a text tells whether its word
has an instruction (`prefix_disassemble`).
-/

namespace ChipEight

theorem AssemblyLine.prefix_text (line : AssemblyLine) :
    line.mnemonic.toList <+: line.text.toList := by
  rw [text]
  split
  · exact List.prefix_rfl
  · rw [String.append_assoc, String.toList_append]
    exact List.prefix_append ..

namespace Instr

/-! ## Texts of instructions -/

variable (jumpsAddVx : Bool) (i : Instr)

/-- A mnemonic has two letters at least, and they are not those of data. -/
theorem mnemonic_not_data : 2 ≤ (i.assembly jumpsAddVx).mnemonic.toList.length ∧
    ¬"DW".toList <+: (i.assembly jumpsAddVx).mnemonic.toList := by
  cases i with
  | skipIf c => cases c <;> simp [assembly, Condition.assembly]
  | alu op x y => cases op <;> simp [assembly, AluOp.mnemonic]
  | _ => simp [assembly]

theorem text_not_data : ¬"DW".toList <+: (i.assembly jumpsAddVx).text.toList := by
  obtain ⟨hlength, hdata⟩ := i.mnemonic_not_data jumpsAddVx
  intro htext
  exact hdata (List.prefix_of_prefix_length_le htext (AssemblyLine.prefix_text _) hlength)

/-! ## Texts of words -/

/-- The two codes that have to be the word itself are. -/
theorem ofCode?_toNat (w : Word) : ofCode? w.toNat = ofWord? w := by
  rw [ofCode?, BitVec.ofInt_natCast, BitVec.ofNat_toNat, BitVec.setWidth_eq]
  cases hi : ofWord? w with
  | none => rfl
  | some i =>
      obtain rfl := toWord_of_ofWord? hi
      cases i <;> rfl

end Instr

theorem prefix_dataWord (code : Int) : "DW".toList <+: (dataWord code).toList := by
  have h : "DW".toList <+: "DW 0x".toList := by simp
  rw [dataWord, String.toList_append]
  exact h.trans (List.prefix_append ..)

theorem prefix_disassemble_code (dialect : Option Dialect) (code : Int) :
    "DW".toList <+: (disassemble dialect code).toList ↔ Instr.ofCode? code = none := by
  rw [disassemble]
  cases Instr.ofCode? code with
  | none => exact iff_of_true (prefix_dataWord _) rfl
  | some i => exact iff_of_false (i.text_not_data _) nofun

theorem prefix_disassemble (dialect : Option Dialect) (w : Word) :
    "DW".toList <+: (disassemble dialect w.toNat).toList ↔ Instr.ofWord? w = none := by
  rw [prefix_disassemble_code, Instr.ofCode?_toNat]

end ChipEight
