import ChipEight.Proofs.HostCalls
import ChipEight.Proofs.Lemmas.Memory

/-!
# Loaded programs

A program is refused for its entry point or for its size, and nothing is changed. One that is accepted lies
where the machine starts, and nothing but the dialect and the random key is left of the state before it
(`load_resets`).
-/

namespace ChipEight

namespace Memory

theorem read_zeroed (a : Nat) : zeroed.read a = 0 := by
  rw [read, zeroed, Vector.getElem?_replicate]
  split <;> rfl

theorem getElem?_glyphs {i : Nat} (hi : i < 80) :
    glyphs[i]? = some (withGlyphs.read (glyphStart + i)) := by
  have hglyph : glyphs[i]? = some glyphs[i] := List.getElem?_eq_getElem hi
  have hlt : glyphStart + i < 4096 := by
    simp only [glyphStart]
    omega
  rw [withGlyphs, read_writeBytes _ hglyph hlt, hglyph]

theorem read_withGlyphs_of_not_covers {a : Nat} (ha : ¬(0x050 ≤ a ∧ a ≤ 0x09F)) :
    withGlyphs.read a = 0 := by
  have hcovers : ¬Covers glyphStart glyphs.length a := by
    intro h
    exact ha ⟨h.1, Nat.le_of_lt_succ h.2⟩
  rw [withGlyphs, read_writeBytes_of_not_covers _ hcovers, read_zeroed]

end Memory

/-! ## States after a load -/

/-- The state `t` holds the program, and only the random key and the dialect are of the state `s`. -/
structure State.Loaded (s : State) (program : List Byte) (entry : Int) (t : State) : Prop where
  byte : ∀ i b, program[i]? = some b → t.memory.read (entry.toNat + i) = b
  glyph : ∀ i < 80, Memory.glyphs[i]? = some (t.memory.read (0x050 + i))
  cleared : ∀ a, ¬Memory.Covers entry.toNat program.length a → ¬(0x050 ≤ a ∧ a ≤ 0x09F) →
    t.memory.read a = 0
  pc : (t.pc.toNat : Int) = entry
  rng : t.rng = s.rng.split.1
  dialect : t.dialect = s.dialect
  pixel : ∀ x y, t.screen.pixel x y = false
  slot : ∀ i : Fin 16, t.stack.slots.get i = 0
  pointer : t.stack.pointer = 0
  delay : t.delay = 0
  sound : t.sound = 0
  key : ∀ k : Fin 16, t.keypad.get k = false
  reg : ∀ r : Reg, t.v.get r = 0
  index : t.index = 0
  ticked : t.ticked = false
  fault : t.fault = 0
  detail : t.detail = 0

namespace State

variable {s t : State} {program : List Byte} {entry : Int}

section Accepted

variable (hentry : 0x200 ≤ entry ∧ entry ≤ 0xFFF)
include hentry

theorem load_of_capacity_lt (h : 0x1000 - entry < program.length) :
    s.load program entry = .error (.capacity program.length (0x1000 - entry)) := by
  rw [load, programStart, if_pos hentry]
  exact if_pos h

theorem load_of_length_le (h : program.length ≤ 0x1000 - entry) : s.load program entry =
    .ok { fresh s.rng.next s.dialect (.ofInt 16 entry) with
      memory := Memory.withGlyphs.writeBytes entry.toNat program } := by
  rw [load, programStart, if_pos hentry]
  exact if_neg (Int.not_lt.mpr h)

end Accepted

theorem load_of_entry_outside (hentry : ¬(0x200 ≤ entry ∧ entry ≤ 0xFFF)) :
    s.load program entry = .error (.entryPoint entry) := by
  rw [load, programStart, if_neg hentry]

/-- The program lies behind the glyphs and does not reach over the end of memory. -/
theorem load_loaded (h : s.load program entry = .ok t) : s.Loaded program entry t := by
  obtain ⟨hlow, hhigh, hfits, rfl⟩ := load_eq_ok h
  refine ⟨?_, ?_, ?_, ?_, rfl, rfl, ?_, ?_, rfl, rfl, rfl, ?_, ?_, rfl, rfl, rfl, rfl⟩
  · intro i b hi
    obtain ⟨hlt, -⟩ := List.getElem?_eq_some_iff.mp hi
    exact Memory.read_writeBytes _ hi (by omega)
  · intro i hi
    have hcovers : ¬Memory.Covers entry.toNat program.length (0x050 + i) := by
      simp only [Memory.Covers]
      omega
    rw [Memory.read_writeBytes_of_not_covers _ hcovers]
    exact Memory.getElem?_glyphs hi
  · intro a ha hglyphs
    rw [Memory.read_writeBytes_of_not_covers _ ha, Memory.read_withGlyphs_of_not_covers hglyphs]
  · simp only [fresh, BitVec.toNat_ofInt]
    omega
  · intro x y
    simp [fresh, Screen.pixel, Screen.blank]
  · intro i
    simp [fresh, Vector.get_eq_getElem]
  · intro k
    simp [fresh, Keypad.released, Vector.get_eq_getElem]
  · intro r
    simp [fresh, Vector.get_eq_getElem]

/-- Which of the three results a load has. -/
theorem load_cases (s : State) (program : List Byte) (entry : Int) :
    (s.load program entry = .error (.entryPoint entry) ↔ ¬(0x200 ≤ entry ∧ entry ≤ 0xFFF)) ∧
    (s.load program entry = .error (.capacity program.length (0x1000 - entry)) ↔
      (0x200 ≤ entry ∧ entry ≤ 0xFFF) ∧ 0x1000 - entry < program.length) ∧
    ((∃ t, s.load program entry = .ok t) ↔
      (0x200 ≤ entry ∧ entry ≤ 0xFFF) ∧ program.length ≤ 0x1000 - entry) := by
  by_cases hentry : 0x200 ≤ entry ∧ entry ≤ 0xFFF
  · by_cases hfits : (program.length : Int) ≤ 0x1000 - entry
    · rw [load_of_length_le hentry hfits]
      simp [hentry, hfits, Int.not_lt.mpr hfits]
    · rw [load_of_capacity_lt hentry (Int.not_le.mp hfits)]
      simp [hentry, hfits, Int.not_le.mp hfits]
  · rw [load_of_entry_outside hentry]
    simp [hentry]

end State

namespace Machine

variable {m : Machine} {program : List Byte}

theorem after_load_of_error {e : LoadError} (h : m.state.load program m.entry = .error e) :
    m.load program = .error e ∧ m.after (.load program) = m := by
  rw [after, load_eq_map, h]
  exact ⟨rfl, rfl⟩

theorem after_load_of_ok {t : State} (h : m.state.load program m.entry = .ok t) :
    m.load program = .ok (m.loaded program t) ∧ m.after (.load program) = m.loaded program t := by
  rw [after, load_eq_map, h]
  exact ⟨rfl, rfl⟩

/-- A program is refused exactly if its entry point lies outside the program area or if there is not room
enough behind it, and it is known which. What an accepted one leads to is fixed by the program, the random key
and the dialect. A machine that refuses one is left as it was with its log, and one that accepts it also loses
its history and its halt. -/
theorem load_resets (s : State) (program : List Byte) (entry : Int) :
    (s.load program entry = .error (.entryPoint entry) ↔ ¬(0x200 ≤ entry ∧ entry ≤ 0xFFF)) ∧
    (s.load program entry = .error (.capacity program.length (0x1000 - entry)) ↔
      (0x200 ≤ entry ∧ entry ≤ 0xFFF) ∧ 0x1000 - entry < program.length) ∧
    ((∃ t, s.load program entry = .ok t ∧ s.Loaded program entry t) ↔
      (0x200 ≤ entry ∧ entry ≤ 0xFFF) ∧ program.length ≤ 0x1000 - entry) ∧
    (∀ s' : State, s'.rng = s.rng → s'.dialect = s.dialect →
      s'.load program entry = s.load program entry) ∧
    ∀ m : Machine, m.state = s → m.entry = entry →
      (∀ e, s.load program entry = .error e →
        m.load program = .error e ∧ m.after (.load program) = m) ∧
      ∀ t, s.load program entry = .ok t → m.load program = .ok (m.after (.load program)) ∧
        ∃ logger, m.after (.load program) =
          { m with state := t, history := [], haltReason := none, logger } := by
  obtain ⟨houtside, hcapacity, haccepted⟩ := s.load_cases program entry
  refine ⟨houtside, hcapacity, ⟨?_, ?_⟩, ?_, ?_⟩
  · rintro ⟨t, ht, -⟩
    exact haccepted.mp ⟨t, ht⟩
  · intro h
    obtain ⟨t, ht⟩ := haccepted.mpr h
    exact ⟨t, ht, State.load_loaded ht⟩
  · intro s' hrng hdialect
    rw [State.load, State.load, hrng, hdialect]
  · rintro m rfl rfl
    refine ⟨fun e => after_load_of_error, ?_⟩
    intro t ht
    obtain ⟨hload, hafter⟩ := after_load_of_ok ht
    rw [hload, hafter]
    exact ⟨rfl, _, rfl⟩

/-- The last address takes one byte and not two, also of a machine that is halted. -/
theorem load_resets_lastByte : let m : Machine := { stray with entry := 0xFFF }
    m.haltReason.isSome ∧
      m.load [0xAB, 0xCD] = .error (.capacity 2 1) ∧ m.after (.load [0xAB, 0xCD]) = m ∧
      ∃ t logger, m.state.Loaded [0xAB] 0xFFF t ∧
        m.after (.load [0xAB]) = { m with state := t, history := [], haltReason := none, logger } := by
  intro m
  obtain ⟨-, hcapacity, -, -, hrefused⟩ := load_resets m.state [0xAB, 0xCD] 0xFFF
  obtain ⟨-, -, haccepted, -, hloaded⟩ := load_resets m.state [0xAB] 0xFFF
  have herror : m.state.load [0xAB, 0xCD] 0xFFF = .error (.capacity 2 1) :=
    hcapacity.mpr ⟨by decide, by decide⟩
  obtain ⟨hload, hsame⟩ := (hrefused m rfl rfl).1 _ herror
  obtain ⟨t, ht, hspec⟩ := haccepted.mpr ⟨by decide, by decide⟩
  obtain ⟨-, logger, hafter⟩ := (hloaded m rfl rfl).2 t ht
  exact ⟨by decide +kernel, hload, hsame, t, logger, hspec, hafter⟩

end Machine

end ChipEight
