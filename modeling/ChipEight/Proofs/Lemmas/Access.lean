import ChipEight.State.Access
import ChipEight.State.Load
import Mathlib

/-!
# What accesses of a host come to

One lemma for each access of a host that can be refused. It says which state an access leads to that is
not.
-/

namespace ChipEight

/-! ## Computations that may fail -/

section Results

variable {ε ε' α β : Type} {x : Except ε α}

theorem bind_eq_ok {f : α → Except ε β} {b : β} :
    x >>= f = .ok b ↔ ∃ a, x = .ok a ∧ f a = .ok b := by
  cases x <;> simp [bind, Except.bind]

theorem map_eq_ok {f : α → β} {b : β} : x.map f = .ok b ↔ ∃ a, x = .ok a ∧ f a = b := by
  cases x <;> simp [Except.map]

theorem map_eq_error {f : α → β} {e : ε} : x.map f = .error e ↔ x = .error e := by
  cases x <;> simp [Except.map]

theorem exists_bind_eq_ok {f : α → Except ε β} :
    (∃ b, x >>= f = .ok b) ↔ ∃ a, x = .ok a ∧ ∃ b, f a = .ok b := by
  cases x <;> simp [bind, Except.bind]

theorem exists_map_eq_ok {f : α → β} : (∃ b, x.map f = .ok b) ↔ ∃ a, x = .ok a := by
  cases x <;> simp [Except.map]

theorem toOption_eq_some {a : α} : x.toOption = some a ↔ x = .ok a := by
  cases x <;> simp [Except.toOption]

theorem mapError_eq_ok {f : ε → ε'} {a : α} : x.mapError f = .ok a ↔ x = .ok a := by
  cases x <;> simp [Except.mapError]

end Results

namespace State

variable {s t : State}

/-! ## Keys and memory -/

theorem checkAddress_eq_ok {a : Int} {j : Fin 4096} (h : checkAddress a = .ok j) : a = j.val := by
  unfold checkAddress at h
  split at h <;> cases h
  simp only
  omega

theorem checkKey_eq_ok {k : Int} {i : Fin 16} : checkKey k = .ok i ↔ k = i.val := by
  unfold checkKey
  split
  · simp only [Except.ok.injEq, Fin.ext_iff]
    omega
  · simp only [reduceCtorEq, false_iff]
    omega

theorem checkKey_eq_error {k : Int} {e : AccessError} :
    checkKey k = .error e ↔ ¬(0 ≤ k ∧ k ≤ 0xF) ∧ e = .key k := by
  unfold checkKey
  split
  · simp only [reduceCtorEq, false_iff]
    omega
  · simp only [Except.error.injEq]
    constructor
    · rintro rfl
      exact ⟨by omega, rfl⟩
    · rintro ⟨-, rfl⟩
      rfl

theorem setKey_eq_ok {k : Int} {pressed : Bool} (h : s.setKey k pressed = .ok t) :
    ∃ keypad, t = { s with keypad } := by
  obtain ⟨i, -, rfl⟩ := map_eq_ok.mp h
  exact ⟨_, rfl⟩

theorem writeByte_eq_ok {a : Int} {value : Datum} (h : s.writeByte a value = .ok t) :
    ∃ memory, t = { s with memory } := by
  obtain ⟨i, -, h⟩ := bind_eq_ok.mp h
  obtain ⟨b, -, h⟩ := bind_eq_ok.mp h
  cases h
  exact ⟨_, rfl⟩

/-! ## Programs -/

theorem start_eq_ok {rng : Key} {dialect : Dialect} {entry : Int}
    (h : start rng dialect entry = .ok s) : s = fresh rng dialect (.ofInt 16 entry) := by
  unfold start at h
  split at h <;> cases h
  rfl

/-- A program that is accepted leaves nothing of the state before but the dialect and the random key, and
the key is moved on. -/
theorem load_eq_ok {program : List Byte} {entry : Int} (h : s.load program entry = .ok t) :
    0x200 ≤ entry ∧ entry ≤ 0xFFF ∧ program.length ≤ 0x1000 - entry ∧
      t = { fresh s.rng.next s.dialect (.ofInt 16 entry) with
        memory := Memory.withGlyphs.writeBytes entry.toNat program } := by
  simp only [load, programStart] at h
  split at h
  · rename_i hentry
    split at h
    · cases h
    · rename_i hroom
      cases h
      exact ⟨hentry.1, hentry.2, Int.not_lt.mp hroom, rfl⟩
  · cases h

end State

end ChipEight
