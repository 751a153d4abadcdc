import ChipEight.Proofs.Lemmas.Effect
import ChipEight.Proofs.Lemmas.Instr
import ChipEight.Proofs.Lemmas.Memory

/-!
# Block transfers one register at a time

A block transfer moves V0 to VX at once. It comes to a loop that moves one register after the other, and also
to moving sixteen bytes of which only those of V0 to VX are kept, even where the others lie behind the end of
memory (`transfers_in_sequence`).
-/

namespace ChipEight

/-! ## Loops and lanes -/

/-- V0 to VX. -/
def Reg.upTo (x : Reg) : List Reg := (List.finRange 16).take (x.val + 1)

/-- The lanes of V0 to VX are taken from `a` and the others from `b`. -/
def Reg.select (x : Reg) (a b : Vector Byte 16) : Vector Byte 16 :=
  Vector.ofFn fun i => if i.val ≤ x.val then a.get i else b.get i

theorem Reg.get_select (x : Reg) (a b : Vector Byte 16) (i : Fin 16) :
    (x.select a b).get i = if i.val ≤ x.val then a.get i else b.get i := by
  simp only [select, Vector.get_eq_getElem, Vector.getElem_ofFn]

namespace Memory

/-- Behind the end of memory the last byte is read again. -/
def gather (m : Memory) (start : Nat) : Vector Byte 16 :=
  Vector.ofFn fun i => m.read (min (start + i.val) lastAddress)

/-- Behind the end of memory nothing is written. -/
def scatter (m : Memory) (start : Nat) (bs : Vector Byte 16) : Memory := m.writeBytes start bs.toList

section Lanes

variable (m : Memory) {start : Nat}

theorem get_gather {i : Fin 16} (hi : start + i.val ≤ lastAddress) :
    (m.gather start).get i = m.read (start + i.val) := by
  simp only [gather, Vector.get_eq_getElem, Vector.getElem_ofFn, Nat.min_eq_left hi]

theorem read_scatter (bs : Vector Byte 16) {i : Fin 16} (hi : start + i.val ≤ lastAddress) :
    (m.scatter start bs).read (start + i.val) = bs.get i := by
  have hbyte : bs.toList[i.val]? = some (bs.get i) := by simp [Vector.get_eq_getElem]
  exact m.read_writeBytes hbyte (Nat.lt_succ_of_le hi)

theorem read_scatter_of_not_covers (bs : Vector Byte 16) {a : Nat} (ha : ¬Covers start 16 a) :
    (m.scatter start bs).read a = m.read a := by
  apply read_writeBytes_of_not_covers
  rwa [Vector.length_toList]

end Lanes

end Memory

namespace State

def storeReg (s : State) (i : Reg) : State :=
  { s with memory := s.memory.write (s.index.toNat + i.val) (s.v.get i) }

def loadReg (s : State) (i : Reg) : State :=
  s.setReg i (s.memory.read (s.index.toNat + i.val))

variable (s : State) {x : Reg}

/-! ## The loop -/

theorem foldl_storeReg {n : Nat} (hn : n ≤ 16) : ((List.finRange 16).take n).foldl storeReg s =
    { s with memory := s.memory.writeBytes s.index.toNat (s.v.toList.take n) } := by
  induction n with
  | zero => simp [Memory.writeBytes]
  | succ n ih =>
      have hreg : (List.finRange 16)[n]? = some ⟨n, hn⟩ := by simp [Nat.lt_of_succ_le hn]
      have hbyte : s.v.toList[n]? = some (s.v.get ⟨n, hn⟩) := by
        simp [Vector.get_eq_getElem, Nat.lt_of_succ_le hn]
      rw [List.take_add_one, List.take_add_one, hreg, hbyte, List.foldl_append, ih (by omega)]
      simp only [Option.toList_some, List.foldl_cons, List.foldl_nil, storeReg,
        Memory.writeBytes_concat, List.length_take, Vector.length_toList]
      rw [Nat.min_eq_left (by omega)]

theorem foldl_loadReg {n : Nat} (hn : n ≤ 16) : ((List.finRange 16).take n).foldl loadReg s =
    { s with v := Vector.ofFn fun i =>
        if i.val < n then s.memory.read (s.index.toNat + i.val) else s.v.get i } := by
  induction n with
  | zero => simp [Vector.get_eq_getElem]
  | succ n ih =>
      have hreg : (List.finRange 16)[n]? = some ⟨n, hn⟩ := by simp [Nat.lt_of_succ_le hn]
      rw [List.take_add_one, hreg, List.foldl_append, ih (by omega)]
      simp only [Option.toList_some, List.foldl_cons, List.foldl_nil, loadReg, setReg, State.mk.injEq,
        and_true, true_and]
      apply Vector.ext
      intro i hi
      by_cases hlast : i = n
      · simp [hlast]
      · have hle : i ≤ n ↔ i < n := by omega
        simp [Vector.getElem_set_ne _ _ (Ne.symm hlast), hle]

theorem storeRegs_eq_foldl :
    s.storeRegs x = { x.upTo.foldl storeReg s with index := s.indexAfter x } := by
  rw [Reg.upTo, foldl_storeReg s x.isLt]
  rfl

theorem loadRegs_eq_foldl :
    s.loadRegs x = { x.upTo.foldl loadReg s with index := s.indexAfter x } := by
  rw [Reg.upTo, foldl_loadReg s x.isLt]
  simp only [loadRegs, Nat.lt_succ_iff]

/-! ## Bytes and registers -/

theorem length_take_regs : (s.v.toList.take (x.val + 1)).length = x.val + 1 := by
  rw [List.length_take, Vector.length_toList]
  omega

theorem read_storeRegs_of_not_covers {a : Nat} (ha : ¬Memory.Covers s.index.toNat (x.val + 1) a) :
    (s.storeRegs x).memory.read a = s.memory.read a := by
  rw [← s.length_take_regs] at ha
  exact s.memory.read_writeBytes_of_not_covers ha

theorem loadRegs_memory : (s.loadRegs x).memory = s.memory := by
  simp only [loadRegs]

theorem get_loadRegs (i : Reg) : (s.loadRegs x).v.get i =
    if i.val ≤ x.val then s.memory.read (s.index.toNat + i.val) else s.v.get i := by
  simp [loadRegs, Vector.get_eq_getElem]

theorem indexAfter_of_stays {s : State} (hd : s.dialect.transfersMoveIndex = false) :
    s.indexAfter x = s.index := by
  simp [indexAfter, hd]

section Fits

variable {s} (h : s.index.toNat + x.val ≤ Memory.lastAddress)
include h

theorem read_storeRegs {i : Reg} (hi : i.val ≤ x.val) :
    (s.storeRegs x).memory.read (s.index.toNat + i.val) = s.v.get i := by
  have hbyte : (s.v.toList.take (x.val + 1))[i.val]? = some (s.v.get i) := by
    rw [List.getElem?_take_of_lt (by omega)]
    simp [Vector.get_eq_getElem]
  simp only [Memory.lastAddress] at h
  exact s.memory.read_writeBytes hbyte (by omega)

theorem indexAfter_toNat : (s.indexAfter x).toNat =
    if s.dialect.transfersMoveIndex then s.index.toNat + x.val + 1 else s.index.toNat := by
  simp only [Memory.lastAddress] at h
  unfold indexAfter
  split
  · simp only [BitVec.toNat_add, BitVec.ofNat_eq_ofNat, BitVec.toNat_ofNat]
    omega
  · rfl

/-! ## Sixteen lanes -/

theorem storeRegs_memory : (s.storeRegs x).memory =
    s.memory.scatter s.index.toNat (x.select s.v (s.memory.gather s.index.toNat)) := by
  apply Memory.eq_of_read
  intro a ha
  by_cases hlane : Memory.Covers s.index.toNat 16 a
  · obtain ⟨i, rfl⟩ : ∃ i : Fin 16, a = s.index.toNat + i.val := by
      obtain ⟨hlow, hhigh⟩ := hlane
      exact ⟨⟨a - s.index.toNat, by omega⟩, (Nat.add_sub_cancel' hlow).symm⟩
    have hi : s.index.toNat + i.val ≤ Memory.lastAddress := Nat.le_of_lt_succ ha
    rw [Memory.read_scatter _ _ hi, Reg.get_select]
    split
    · exact read_storeRegs h ‹_›
    -- A lane that is not stored gets back its own byte, since it lies in memory.
    · rw [Memory.get_gather _ hi]
      apply read_storeRegs_of_not_covers
      simp only [Memory.Covers]
      omega
  · rw [Memory.read_scatter_of_not_covers _ _ hlane]
    apply read_storeRegs_of_not_covers
    simp only [Memory.Covers] at hlane ⊢
    omega

theorem loadRegs_v : (s.loadRegs x).v = x.select (s.memory.gather s.index.toNat) s.v := by
  have hreg (i : Reg) :
      (s.loadRegs x).v.get i = (x.select (s.memory.gather s.index.toNat) s.v).get i := by
    rw [get_loadRegs, Reg.get_select]
    split
    · rw [Memory.get_gather _ (by omega)]
    · rfl
  exact Vector.ext fun i hi => hreg ⟨i, hi⟩

/-! ## There and back -/

theorem execute_storeRegs : s.execute (Word.ofRegByte 0xF x 0x55) = s.storeRegs x :=
  execute_of_effect (Instr.ofWord?_toWord (.storeRegs x)) (if_pos h)

theorem execute_loadRegs : s.execute (Word.ofRegByte 0xF x 0x65) = s.loadRegs x :=
  execute_of_effect (Instr.ofWord?_toWord (.loadRegs x)) (if_pos h)

theorem loadRegs_storeRegs_v (hd : s.dialect.transfersMoveIndex = false) :
    ((s.storeRegs x).loadRegs x).v = s.v := by
  have hindex : (s.storeRegs x).index = s.index := indexAfter_of_stays hd
  have hreg (i : Reg) : ((s.storeRegs x).loadRegs x).v.get i = s.v.get i := by
    rw [get_loadRegs, hindex]
    split
    · exact read_storeRegs h ‹_›
    · rfl
  exact Vector.ext fun i hi => hreg ⟨i, hi⟩

theorem storeRegs_loadRegs_memory (hd : s.dialect.transfersMoveIndex = false) :
    ((s.loadRegs x).storeRegs x).memory = s.memory := by
  have hindex : (s.loadRegs x).index = s.index := indexAfter_of_stays hd
  have hfits : (s.loadRegs x).index.toNat + x.val ≤ Memory.lastAddress := by
    rw [hindex]
    exact h
  apply Memory.eq_of_read
  intro a _
  by_cases ha : Memory.Covers s.index.toNat (x.val + 1) a
  · obtain ⟨hlow, hhigh⟩ := ha
    obtain ⟨i, hi, rfl⟩ : ∃ i : Reg, i.val ≤ x.val ∧ a = (s.loadRegs x).index.toNat + i.val := by
      rw [hindex]
      exact ⟨⟨a - s.index.toNat, by omega⟩, by simp only; omega, (Nat.add_sub_cancel' hlow).symm⟩
    rw [read_storeRegs hfits hi, get_loadRegs, if_pos hi, hindex]
  · rw [← hindex] at ha
    rw [read_storeRegs_of_not_covers _ ha, loadRegs_memory]

end Fits

/-- A transfer that ends within memory moves one register after the other and nothing else, and leaves I
alone or puts it behind the last byte. It is also what a transfer of sixteen lanes comes to in which those
behind VX keep what was there. Where I stays, a transfer back undoes it. -/
theorem transfers_in_sequence (s : State) (x : Reg)
    (h : s.index.toNat + x.val ≤ Memory.lastAddress) :
    let stored := s.execute (Word.ofRegByte 0xF x 0x55)
    let loaded := s.execute (Word.ofRegByte 0xF x 0x65)
    let lanes := s.memory.gather s.index.toNat
    (stored = { x.upTo.foldl storeReg s with index := stored.index } ∧
      stored.memory = s.memory.scatter s.index.toNat (x.select s.v lanes) ∧
      (∀ i : Reg, i.val ≤ x.val → stored.memory.read (s.index.toNat + i.val) = s.v.get i) ∧
      ∀ a, ¬Memory.Covers s.index.toNat (x.val + 1) a → stored.memory.read a = s.memory.read a) ∧
    (loaded = { x.upTo.foldl loadReg s with index := loaded.index } ∧
      loaded.v = x.select lanes s.v ∧
      (∀ i : Reg, i.val ≤ x.val → loaded.v.get i = s.memory.read (s.index.toNat + i.val)) ∧
      ∀ i : Reg, x.val < i.val → loaded.v.get i = s.v.get i) ∧
    (∀ t ∈ [stored, loaded], t.index.toNat =
      if s.dialect.transfersMoveIndex then s.index.toNat + x.val + 1 else s.index.toNat) ∧
    (s.dialect.transfersMoveIndex = false →
      (stored.execute (Word.ofRegByte 0xF x 0x65)).v = s.v ∧
      (loaded.execute (Word.ofRegByte 0xF x 0x55)).memory = s.memory) := by
  intro stored loaded lanes
  have hstored : stored = s.storeRegs x := execute_storeRegs h
  have hloaded : loaded = s.loadRegs x := execute_loadRegs h
  rw [hstored, hloaded]
  refine ⟨⟨s.storeRegs_eq_foldl, storeRegs_memory h, fun i => read_storeRegs h,
    fun a => s.read_storeRegs_of_not_covers⟩, ⟨s.loadRegs_eq_foldl, loadRegs_v h, ?_, ?_⟩, ?_, ?_⟩
  · intro i hi
    rw [get_loadRegs, if_pos hi]
  · intro i hi
    rw [get_loadRegs, if_neg (Nat.not_le_of_lt hi)]
  · intro t ht
    rw [List.mem_pair] at ht
    rcases ht with rfl | rfl
    · exact indexAfter_toNat h
    · exact indexAfter_toNat h
  · intro hd
    have hindex : s.indexAfter x = s.index := indexAfter_of_stays hd
    have hfits : (s.indexAfter x).toNat + x.val ≤ Memory.lastAddress := hindex ▸ h
    constructor
    · rw [execute_loadRegs hfits, loadRegs_storeRegs_v h hd]
    · rw [execute_storeRegs hfits, storeRegs_loadRegs_memory h hd]

/-- Points at the last two bytes of memory. -/
def atLastTwo : State where
  rng := ⟨0, 0⟩
  memory := Memory.zeroed.writeBytes 0xFFD [0x11, 0x22, 0x33]
  v := Vector.ofFn fun i => .ofNat 8 (0xA0 + i.val)
  index := 0xFFE

theorem transfers_in_sequence_atLastTwo :
    atLastTwo.index.toNat + (1 : Reg).val ≤ Memory.lastAddress ∧
    let stored := atLastTwo.execute (Word.ofRegByte 0xF 1 0x55)
    let loaded := atLastTwo.execute (Word.ofRegByte 0xF 1 0x65)
    stored.memory.read 0xFFF = 0xA1 ∧ stored.memory.read 0xFFD = 0x11 ∧
      loaded.v.get 1 = 0x33 ∧ loaded.v.get 2 = 0xA2 ∧
      (stored.execute (Word.ofRegByte 0xF 1 0x65)).v = atLastTwo.v ∧
      (loaded.execute (Word.ofRegByte 0xF 1 0x55)).memory = atLastTwo.memory := by
  have h : atLastTwo.index.toNat + (1 : Reg).val ≤ Memory.lastAddress := by decide
  obtain ⟨⟨-, -, hstored, hbytes⟩, ⟨-, -, hloaded, hregs⟩, -, hback⟩ := transfers_in_sequence atLastTwo 1 h
  refine ⟨h, hstored 1 (by decide), (hbytes 0xFFD (by decide)).trans ?_,
    (hloaded 1 (by decide)).trans ?_, hregs 2 (by decide), hback rfl⟩
  · show atLastTwo.memory.read (0xFFD + 0) = 0x11
    exact Memory.read_writeBytes _ rfl (by decide)
  · show atLastTwo.memory.read (0xFFD + 2) = 0x33
    exact Memory.read_writeBytes _ rfl (by decide)

end State

end ChipEight
