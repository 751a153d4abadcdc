import ChipEight.Memory
import Mathlib

/-!
# Reading what was written

A write changes the byte at its address and nothing else, so that writes to different addresses can be made
in either order. Both hold as well of blocks of bytes and the addresses that they do not cover.
-/

namespace ChipEight.Memory

/-- The address is covered by a block of that many bytes. -/
def Covers (start size a : Nat) : Prop := start ≤ a ∧ a < start + size

instance (start size a : Nat) : Decidable (Covers start size a) := inferInstanceAs (Decidable (_ ∧ _))

variable (m : Memory)

/-! ## Single bytes -/

theorem set_eq_write (i : Nat) (b : Byte) (hi : i < 4096) : m.set i b hi = m.write i b := by
  apply Vector.ext
  intro j hj
  simp only [write, Vector.getElem_set, Vector.getElem_setIfInBounds]

/-- Memories are equal if all their bytes are. -/
theorem eq_of_read {m m' : Memory} (h : ∀ a < 4096, m.read a = m'.read a) : m = m' := by
  apply Vector.ext
  intro a ha
  simpa [read, ha] using h a ha

theorem read_write_self {a : Nat} (b : Byte) (h : a < 4096) : (m.write a b).read a = b := by
  simp [read, write, h]

theorem read_write_of_ne {a a' : Nat} (b : Byte) (h : a ≠ a') : (m.write a b).read a' = m.read a' := by
  rw [read, read, write, Vector.getElem?_setIfInBounds_ne h]

theorem write_comm {a a' : Nat} (b b' : Byte) (h : a ≠ a') :
    (m.write a b).write a' b' = (m.write a' b').write a b :=
  Vector.setIfInBound_comm b b' h

theorem word_write_of_ne {a a' : Nat} (b : Byte) (h : a ≠ a') (h' : a ≠ a' + 1) :
    (m.write a b).word a' = m.word a' := by
  rw [word, word, read_write_of_ne m b h, read_write_of_ne m b h']

/-! ## Blocks -/

theorem read_writeBytes_of_not_covers {start a : Nat} {bs : List Byte}
    (h : ¬Covers start bs.length a) : (m.writeBytes start bs).read a = m.read a := by
  induction bs generalizing m start with
  | nil => rfl
  | cons b bs ih =>
      simp only [Covers, List.length_cons] at h ih
      rw [writeBytes, ih (m.write start b) (by omega), read_write_of_ne m b (by omega)]

theorem read_writeBytes {start i : Nat} {bs : List Byte} {b : Byte} (hi : bs[i]? = some b)
    (ha : start + i < 4096) : (m.writeBytes start bs).read (start + i) = b := by
  induction bs generalizing m start i with
  | nil => cases hi
  | cons b' bs ih =>
      rw [writeBytes]
      cases i with
      | zero =>
          cases hi
          rw [read_writeBytes_of_not_covers _ (by simp only [Covers]; omega)]
          exact read_write_self m b ha
      | succ i =>
          rw [← Nat.add_assoc, Nat.add_right_comm] at ha ⊢
          exact ih (m.write start b') hi ha

theorem writeBytes_concat {start : Nat} (bs : List Byte) (b : Byte) :
    m.writeBytes start (bs ++ [b]) = (m.writeBytes start bs).write (start + bs.length) b := by
  induction bs generalizing m start with
  | nil => rfl
  | cons b' bs ih =>
      rw [List.cons_append, writeBytes, ih, writeBytes, List.length_cons, Nat.add_right_comm,
        Nat.add_assoc]

theorem writeBytes_write_comm {start a : Nat} {bs : List Byte} (b : Byte)
    (h : ¬Covers start bs.length a) :
    (m.write a b).writeBytes start bs = (m.writeBytes start bs).write a b := by
  induction bs generalizing m start with
  | nil => rfl
  | cons b' bs ih =>
      simp only [Covers, List.length_cons] at h ih
      rw [writeBytes, write_comm m b b' (by omega), ih (m.write start b') (by omega), writeBytes]

end ChipEight.Memory
