import ChipEight.CallStack
import Mathlib

/-!
# Stacks as lists

A stack with room for sixteen return addresses holds a list of them, the innermost one last. A push
appends to the list, and a drop takes its last address off, which is the one at the top.
-/

namespace ChipEight.CallStack

variable {c c' : CallStack}

/-! ## Pointers and slots -/

theorem pointer_pos (hp : c.pointer ≠ 0) : 0 < c.pointer.toNat :=
  Nat.pos_of_ne_zero fun h0 => hp (BitVec.eq_of_toNat_eq h0)

theorem pointer_sub_one (hp : c.pointer ≠ 0) : (c.pointer - 1).toNat = c.pointer.toNat - 1 := by
  have := pointer_pos hp
  bv_omega

theorem push_pointer {a : Word} (hroom : c.pointer.toNat < 16) :
    (c.push a).pointer.toNat = c.pointer.toNat + 1 := by
  simp only [push]
  bv_omega

theorem get_push (a : Word) (i : Fin 16) :
    (c.push a).slots.get i = if c.pointer.toNat = i then a else c.slots.get i := by
  simp only [push, Vector.get_eq_getElem, Vector.getElem_setIfInBounds]

theorem get_drop (hp : c.pointer ≠ 0) (i : Fin 16) :
    c.drop.slots.get i = if c.pointer.toNat - 1 = i then 0 else c.slots.get i := by
  simp only [drop, pointer_sub_one hp, Vector.get_eq_getElem, Vector.getElem_setIfInBounds]

theorem top_eq {i : Fin 16} (hi : c.pointer.toNat = i.val + 1) : c.top = c.slots.get i := by
  have hmin : min (c.pointer - 1).toNat 15 = i.val := by bv_omega
  simp only [top, hmin, Vector.get_eq_getElem]

/-! ## Lists of return addresses -/

/-- The slots that are free are clear. -/
structure Holds (c : CallStack) (as : List Word) : Prop where
  length_le : as.length ≤ 16
  pointer : c.pointer.toNat = as.length
  slot : ∀ i : Fin 16, c.slots.get i = as[i.val]?.getD 0

variable {as : List Word} {a : Word}

theorem Holds.unique (h : c.Holds as) (h' : c'.Holds as) : c = c' := by
  have hslots : c.slots = c'.slots :=
    Vector.ext fun i hi => (h.slot ⟨i, hi⟩).trans (h'.slot ⟨i, hi⟩).symm
  have hpointer : c.pointer = c'.pointer := BitVec.eq_of_toNat_eq (h.pointer.trans h'.pointer.symm)
  obtain ⟨slots, pointer⟩ := c
  simp_all

theorem holds_of_cleared (hp : c.pointer.toNat ≤ 16)
    (hclear : ∀ i : Fin 16, c.pointer.toNat ≤ i.val → c.slots.get i = 0) :
    c.Holds (c.slots.toList.take c.pointer.toNat) where
  length_le := by simp
  pointer := by simp [hp]
  slot := fun i => by
    by_cases hi : i.val < c.pointer.toNat
    · simp [hi, Vector.get_eq_getElem]
    · rw [hclear i (by omega)]
      simp [hi]

/-- Only the slot behind the list tells the two lists apart. -/
theorem getElem?_append_of_ne {i : Nat} (hi : i ≠ as.length) : (as ++ [a])[i]? = as[i]? := by
  rcases Nat.lt_or_gt_of_ne hi with hlt | hgt
  · exact List.getElem?_append_left hlt
  · rw [List.getElem?_eq_none (by simpa using hgt), List.getElem?_eq_none (by omega)]

theorem Holds.push (h : c.Holds as) (hroom : as.length < 16) (a : Word) :
    (c.push a).Holds (as ++ [a]) where
  length_le := by
    rw [List.length_append]
    exact hroom
  pointer := by
    rw [push_pointer (h.pointer ▸ hroom), h.pointer, List.length_append]
    rfl
  slot := fun i => by
    rw [get_push, h.pointer, h.slot]
    split
    · simp [*]
    · rw [getElem?_append_of_ne (Ne.symm ‹_›)]

section Last

variable (h : c.Holds (as ++ [a]))
include h

theorem Holds.pointer_eq : c.pointer.toNat = as.length + 1 := by
  rw [h.pointer, List.length_append]
  rfl

theorem Holds.pointer_ne_zero : c.pointer ≠ 0 := fun h0 => by
  have := h.pointer_eq
  simp [h0] at this

theorem Holds.drop : c.drop.Holds as where
  length_le := Nat.le_of_succ_le (by simpa using h.length_le)
  pointer := by
    rw [show c.drop.pointer = c.pointer - 1 from rfl, pointer_sub_one h.pointer_ne_zero, h.pointer_eq]
    rfl
  slot := fun i => by
    rw [get_drop h.pointer_ne_zero, h.pointer_eq, h.slot]
    split
    · simp [← ‹as.length + 1 - 1 = i.val›]
    · rw [getElem?_append_of_ne (Ne.symm ‹_›)]

theorem Holds.top : c.top = a := by
  have hlt : as.length < 16 := by simpa using h.length_le
  have hlast := h.slot ⟨as.length, hlt⟩
  rw [top_eq (i := ⟨as.length, hlt⟩) h.pointer_eq, hlast]
  simp

end Last

end ChipEight.CallStack
