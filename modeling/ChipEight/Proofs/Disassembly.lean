import ChipEight.Proofs.Lemmas.Assembly
import ChipEight.Proofs.Lemmas.Numeral

/-!
# Reading assembly lines

An assembly line is read word by word, and each operand from its letters. What is read is the instruction that the
line was written for, so that two codes share a line only if they share the instruction
(`disassemble_unambiguous`).
-/

namespace ChipEight

/-! ## Operands -/

namespace Operand

/-- Bytes and targets are told apart by their number of digits. -/
def ofText? : List Char → Option Operand
  | 'V' :: digits => some (.reg (BitVec.ofNat 4 (Numeral.ofHexDigits digits)).toFin)
  | '0' :: 'x' :: digits =>
      if digits.length = 2 then some (.byte (.ofNat 8 (Numeral.ofHexDigits digits)))
      else some (.target (.ofNat 12 (Numeral.ofHexDigits digits)))
  | ['I'] => some .index
  | ['[', 'I', ']'] => some .atIndex
  | ['D', 'T'] => some .delay
  | ['S', 'T'] => some .sound
  | ['K'] => some .key
  | ['F'] => some .glyph
  | ['B'] => some .decimal
  | digits => some (.rows (BitVec.ofNat 4 (Nat.ofDigitChars 10 digits 0)).toFin)

theorem ofText?_rows : ∀ n : Fin 16, ofText? (rows n).text.toList = some (rows n) := by
  decide

theorem ofText?_text (o : Operand) : ofText? o.text.toList = some o := by
  cases o with
  | reg x => simp [text, ofText?, Numeral.ofHexDigits_hex]
  | byte nn =>
      have hlength : (Numeral.hex 2 nn.toNat).toList.length = 2 := Numeral.length_hex (by decide) nn.isLt
      simp [text, ofText?, Numeral.ofHexDigits_hex, hlength]
  | target nnn =>
      have hlength : (Numeral.hex 3 nnn.toNat).toList.length = 3 := Numeral.length_hex (by decide) nnn.isLt
      simp [text, ofText?, Numeral.ofHexDigits_hex, hlength]
  | rows n => exact ofText?_rows n
  | index | atIndex | delay | sound | key | glyph | decimal => simp [text, ofText?]

theorem mapM_ofText? (os : List Operand) : (os.map (·.text.toList)).mapM ofText? = some os := by
  induction os with
  | nil => rfl
  | cons o os ih => simp [ofText?_text, ih]

/-- What a word of a line is written in: letters and digits, and no separators. -/
def Solid (cs : List Char) : Prop := ' ' ∉ cs ∧ ',' ∉ cs

instance (cs : List Char) : Decidable (Solid cs) := inferInstanceAs (Decidable (_ ∧ _))

theorem solid_append {cs ds : List Char} (hc : Solid cs) (hd : Solid ds) : Solid (cs ++ ds) := by
  simp only [Solid, List.mem_append, not_or]
  exact ⟨⟨hc.1, hd.1⟩, hc.2, hd.2⟩

theorem solid_hex (width n : Nat) : Solid (Numeral.hex width n).toList :=
  ⟨fun h => (Numeral.hexDigit_of_mem_hex h).ne (by decide) rfl,
   fun h => (Numeral.hexDigit_of_mem_hex h).ne (by decide) rfl⟩

theorem solid_rows : ∀ n : Fin 16, Solid (rows n).text.toList := by
  decide

theorem solid_text (o : Operand) : Solid o.text.toList := by
  cases o with
  | reg | byte | target =>
      rw [text, String.toList_append]
      exact solid_append (by decide) (solid_hex ..)
  | rows n => exact solid_rows n
  | index | atIndex | delay | sound | key | glyph | decimal => decide

end Operand

/-! ## Lines -/

namespace AssemblyLine

/-- The mnemonic and the operands as they are written. -/
def words (line : AssemblyLine) : List (List Char) :=
  line.mnemonic.toList :: line.operands.map (·.text.toList)

/-- Commas stand before blanks only, so that nothing is lost with them. -/
def splitWords (cs : List Char) : List (List Char) := (cs.filter (· != ',')).splitOn ' '

def ofText? (text : String) : Option AssemblyLine :=
  match splitWords text.toList with
  | mnemonic :: operands =>
      (operands.mapM Operand.ofText?).map fun os => ⟨String.ofList mnemonic, os⟩
  | [] => none

theorem filter_eq_self_of_solid {cs : List Char} (h : Operand.Solid cs) : cs.filter (· != ',') = cs :=
  List.filter_eq_self.mpr fun _ hc => bne_iff_ne.mpr fun hcomma => h.2 (hcomma ▸ hc)

theorem filter_intercalate (ls : List (List Char)) (h : ∀ l ∈ ls, Operand.Solid l) :
    ([',', ' '].intercalate ls).filter (· != ',') = [' '].intercalate ls := by
  induction ls with
  | nil => rfl
  | cons l ls ih =>
      obtain ⟨hl, hls⟩ := List.forall_mem_cons.mp h
      cases ls with
      | nil => simp [filter_eq_self_of_solid hl]
      | cons l' ls =>
          simp only [List.intercalate_cons_cons, List.filter_append, filter_eq_self_of_solid hl, ih hls]
          rfl

variable {line : AssemblyLine} (h : Operand.Solid line.mnemonic.toList)
include h

theorem words_solid : ∀ l ∈ line.words, Operand.Solid l := by
  simp only [words, List.forall_mem_cons, List.forall_mem_map]
  exact ⟨h, fun o _ => o.solid_text⟩

theorem filter_text : line.text.toList.filter (· != ',') = [' '].intercalate line.words := by
  obtain ⟨-, hoperands⟩ := List.forall_mem_cons.mp (words_solid h)
  rw [text]
  split
  · rename_i hnil
    simp [words, hnil, filter_eq_self_of_solid h]
  · rename_i hcons
    have htext : (line.mnemonic ++ " " ++ ", ".intercalate (line.operands.map Operand.text)).toList =
        line.mnemonic.toList ++ [' '] ++ [',', ' '].intercalate (line.operands.map (·.text.toList)) := by
      simp [String.toList_intercalate, Function.comp_def]
    rw [htext, words, List.intercalate_cons_of_ne_nil (by simpa using hcons)]
    simp only [List.filter_append, filter_eq_self_of_solid h, filter_intercalate _ hoperands]
    rfl

theorem ofText?_text : ofText? line.text = some line := by
  have hwords : splitWords line.text.toList = line.words := by
    rw [splitWords, filter_text h]
    exact List.splitOn_intercalate ' ' (fun l hl => (words_solid h l hl).1) (by simp [words])
  simp only [ofText?, hwords, words, Operand.mapM_ofText?, Option.map_some, String.ofList_toList]

end AssemblyLine

/-! ## Instructions -/

def AluOp.ofMnemonic? (m : String) : Option AluOp :=
  [AluOp.or, .and, .xor, .add, .sub, .subReversed, .shiftRight, .shiftLeft].find? (·.mnemonic = m)

namespace Instr

/-- The instruction of a line. Of a jump with offset the target alone tells what is added. -/
def ofAssembly? (line : AssemblyLine) : Option Instr :=
  match line.mnemonic, line.operands with
  | "CLS", [] => some .clear
  | "RET", [] => some .ret
  | "JP", [.target nnn] => some (.jump nnn)
  | "JP", [.reg _, .target nnn] => some (.jumpOffset nnn)
  | "CALL", [.target nnn] => some (.call nnn)
  | "SE", [.reg x, .byte nn] => some (.skipIf (.equalByte x nn))
  | "SNE", [.reg x, .byte nn] => some (.skipIf (.differsByte x nn))
  | "SE", [.reg x, .reg y] => some (.skipIf (.equalReg x y))
  | "SNE", [.reg x, .reg y] => some (.skipIf (.differsReg x y))
  | "SKP", [.reg x] => some (.skipIf (.pressed x))
  | "SKNP", [.reg x] => some (.skipIf (.released x))
  | "ADD", [.reg x, .byte nn] => some (.addByte x nn)
  | "ADD", [.index, .reg x] => some (.addIndex x)
  | "RND", [.reg x, .byte nn] => some (.random x nn)
  | "DRW", [.reg x, .reg y, .rows n] => some (.draw x y n)
  | "LD", [.reg x, .byte nn] => some (.setByte x nn)
  | "LD", [.reg x, .reg y] => some (.copy x y)
  | "LD", [.index, .target nnn] => some (.setIndex nnn)
  | "LD", [.reg x, .delay] => some (.readDelay x)
  | "LD", [.reg x, .key] => some (.waitKey x)
  | "LD", [.delay, .reg x] => some (.setDelay x)
  | "LD", [.sound, .reg x] => some (.setSound x)
  | "LD", [.glyph, .reg x] => some (.pointGlyph x)
  | "LD", [.decimal, .reg x] => some (.storeDecimal x)
  | "LD", [.atIndex, .reg x] => some (.storeRegs x)
  | "LD", [.reg x, .atIndex] => some (.loadRegs x)
  | m, [.reg x, .reg y] => (AluOp.ofMnemonic? m).map (.alu · x y)
  | _, _ => none

theorem ofAssembly?_assembly (jumpsAddVx : Bool) (i : Instr) :
    ofAssembly? (i.assembly jumpsAddVx) = some i := by
  cases i with
  | skipIf c => cases c <;> rfl
  | alu op x y => cases op <;> rfl
  | _ => rfl

/-- A text is read as a line first. -/
def ofText? (text : String) : Option Instr := (AssemblyLine.ofText? text).bind ofAssembly?

variable (jumpsAddVx : Bool) (i : Instr)

theorem mnemonic_solid : Operand.Solid (i.assembly jumpsAddVx).mnemonic.toList := by
  cases i with
  | skipIf c => cases c <;> simp [assembly, Condition.assembly, Operand.Solid]
  | alu op x y => cases op <;> simp [assembly, AluOp.mnemonic, Operand.Solid]
  | _ => simp [assembly, Operand.Solid]

theorem ofText?_text : ofText? (i.assembly jumpsAddVx).text = some i := by
  rw [ofText?, AssemblyLine.ofText?_text (i.mnemonic_solid jumpsAddVx), Option.bind_some, ofAssembly?_assembly]

/-! ## Codes -/

theorem op_ne_illegal : i.op ≠ .illegal := by
  cases i with
  | skipIf c => cases c <;> nofun
  | alu op x y => cases op <;> nofun
  | _ => nofun

/-- An instruction is told by the low sixteen bits of a code. -/
theorem toWord_of_ofCode? {code : Int} {i : Instr} (h : ofCode? code = some i) :
    i.toWord = BitVec.ofInt 16 code := by
  refine toWord_of_ofWord? ?_
  rw [ofCode?] at h
  cases hw : ofWord? (BitVec.ofInt 16 code) with
  | none => simp [hw] at h
  | some j => cases j <;> simp_all

end Instr

theorem emod_eq_of_ofInt_eq {a b : Int} (h : BitVec.ofInt 16 a = BitVec.ofInt 16 b) :
    a % 0x10000 = b % 0x10000 := by
  have htoNat := congrArg BitVec.toNat h
  simp only [BitVec.toNat_ofInt] at htoNat
  omega

theorem dataWord_injective : Function.Injective dataWord :=
  fun _ _ h => Numeral.hex_injective 4 (String.append_right_inj _ |>.mp h)

/-- A data word is told by its first letters, and from any other text the instruction is read back. -/
theorem ofCode?_eq_of_disassemble_eq {dialect : Option Dialect} {a b : Int}
    (h : disassemble dialect a = disassemble dialect b) : Instr.ofCode? a = Instr.ofCode? b := by
  have hdata : Instr.ofCode? a = none ↔ Instr.ofCode? b = none := by
    rw [← prefix_disassemble_code dialect, h, prefix_disassemble_code]
  cases ha : Instr.ofCode? a with
  | none => exact (hdata.mp ha).symm
  | some i =>
      cases hb : Instr.ofCode? b with
      | none => exact absurd (hdata.mpr hb) (by simp [ha])
      | some j =>
          have htexts : (i.assembly (dialect.any (·.jumpsAddVx))).text =
              (j.assembly (dialect.any (·.jumpsAddVx))).text := by
            simpa only [disassemble, ha, hb] using h
          rw [← i.ofText?_text, htexts, j.ofText?_text]

/-- Codes of any size and sign with one text have one operation and agree in their low sixteen bits. Without an
instruction they are the same. -/
theorem disassemble_unambiguous (dialect : Option Dialect) (a b : Int)
    (h : disassemble dialect a = disassemble dialect b) :
    Op.ofCode a = Op.ofCode b ∧ a % 0x10000 = b % 0x10000 ∧ (Op.ofCode a = .illegal → a = b) := by
  have hcodes := ofCode?_eq_of_disassemble_eq h
  refine ⟨congrArg Op.ofInstr? hcodes, ?_⟩
  cases ha : Instr.ofCode? a with
  | none =>
      have hb : Instr.ofCode? b = none := hcodes.symm.trans ha
      simp only [disassemble, ha, hb] at h
      obtain rfl := dataWord_injective h
      exact ⟨rfl, fun _ => rfl⟩
  | some i =>
      have hb : Instr.ofCode? b = some i := hcodes.symm.trans ha
      have hword := (Instr.toWord_of_ofCode? ha).symm.trans (Instr.toWord_of_ofCode? hb)
      refine ⟨emod_eq_of_ofInt_eq hword, fun hop => ?_⟩
      rw [Op.ofCode, ha] at hop
      exact absurd hop i.op_ne_illegal

/-- Two codes of different sign that have the low bits of a jump with offset. -/
theorem disassemble_unambiguous_jumpOffset :
    disassemble (some { jumpsAddVx := true }) 0x1B345 = disassemble (some { jumpsAddVx := true }) (-0x4CBB) ∧
      Op.ofCode 0x1B345 = Op.ofCode (-0x4CBB) ∧ (0x1B345 : Int) % 0x10000 = -0x4CBB % 0x10000 := by
  have h : disassemble (some { jumpsAddVx := true }) 0x1B345 =
      disassemble (some { jumpsAddVx := true }) (-0x4CBB) := by decide
  obtain ⟨hop, hmod, -⟩ := disassemble_unambiguous _ _ _ h
  exact ⟨h, hop, hmod⟩

end ChipEight
