import ChipEight.Word
import Mathlib

/-!
# Fields of words as numbers

A word is a number of four hexadecimal digits, and its fields are read off the digits.
-/

namespace ChipEight

/-- Appending shifts the high part. -/
theorem toNat_append_eq_add {m n : Nat} (high : BitVec m) (low : BitVec n) :
    (high ++ low).toNat = 2 ^ n * high.toNat + low.toNat := by
  rw [BitVec.toNat_append, ← Nat.shiftLeft_add_eq_or_of_lt low.isLt, Nat.shiftLeft_eq, Nat.mul_comm]

namespace Word

/-! ## Reading -/

theorem family_val (w : Word) : w.family.val = w.toNat / 0x1000 := by
  have := w.isLt
  simp only [family, BitVec.toFin_extractLsb', Fin.val_ofNat, Nat.shiftRight_eq_div_pow]
  omega

theorem x_val (w : Word) : w.x.val = w.toNat / 0x100 % 0x10 := by
  simp [x, Nat.shiftRight_eq_div_pow]

theorem y_val (w : Word) : w.y.val = w.toNat / 0x10 % 0x10 := by
  simp [y, Nat.shiftRight_eq_div_pow]

theorem n_val (w : Word) : w.n.val = w.toNat % 0x10 := by
  simp [n]

theorem nn_toNat (w : Word) : w.nn.toNat = w.toNat % 0x100 := by
  simp [nn]

theorem nnn_toNat (w : Word) : w.nnn.toNat = w.toNat % 0x1000 := by
  simp [nnn]

/-! ## Writing -/

theorem toNat_ofBytes (high low : Byte) :
    (ofBytes high low).toNat = 0x100 * high.toNat + low.toNat := toNat_append_eq_add high low

variable {family : Nat} (hf : family < 16)
include hf

theorem toNat_ofTarget (nnn : Target) :
    (ofTarget family nnn).toNat = 0x1000 * family + nnn.toNat := by
  simp only [ofTarget, toNat_append_eq_add, BitVec.toNat_ofNat]
  omega

theorem toNat_ofRegByte (x : Reg) (nn : Byte) :
    (ofRegByte family x nn).toNat = 0x1000 * family + 0x100 * x.val + nn.toNat := by
  simp only [ofRegByte, toNat_append_eq_add, BitVec.toNat_ofNat, BitVec.toNat_ofFin]
  omega

theorem toNat_ofRegReg (x y : Reg) (n : BitVec 4) : (ofRegReg family x y n).toNat =
    0x1000 * family + 0x100 * x.val + 0x10 * y.val + n.toNat := by
  simp only [ofRegReg, toNat_append_eq_add, BitVec.toNat_ofNat, BitVec.toNat_ofFin]
  omega

/-! ## Words from their fields -/

theorem ofTarget_nnn {w : Word} (h : w.family.val = family) : ofTarget family w.nnn = w := by
  apply BitVec.eq_of_toNat_eq
  rw [toNat_ofTarget hf, nnn_toNat, ← h, family_val]
  omega

theorem ofRegByte_x {w : Word} {nn : Byte} (h : w.family.val = family)
    (hb : w.toNat % 0x100 = nn.toNat) : ofRegByte family w.x nn = w := by
  apply BitVec.eq_of_toNat_eq
  rw [toNat_ofRegByte hf, x_val, ← hb, ← h, family_val]
  omega

theorem ofRegByte_x_nn {w : Word} (h : w.family.val = family) :
    ofRegByte family w.x w.nn = w := ofRegByte_x hf h w.nn_toNat.symm

theorem ofRegReg_x_y {w : Word} {n : BitVec 4} (h : w.family.val = family)
    (hn : w.n.val = n.toNat) : ofRegReg family w.x w.y n = w := by
  apply BitVec.eq_of_toNat_eq
  rw [toNat_ofRegReg hf, x_val, y_val, ← hn, n_val, ← h, family_val]
  omega

theorem ofRegReg_x_y_n {w : Word} (h : w.family.val = family) :
    ofRegReg family w.x w.y (.ofFin w.n) = w := ofRegReg_x_y hf h rfl

/-! ## Fields of written words -/

@[simp]
theorem family_ofTarget (nnn : Target) : (ofTarget family nnn).family.val = family := by
  have := nnn.isLt
  rw [family_val, toNat_ofTarget hf]
  omega

@[simp]
theorem nnn_ofTarget (nnn : Target) : (ofTarget family nnn).nnn = nnn := by
  have := nnn.isLt
  apply BitVec.eq_of_toNat_eq
  rw [nnn_toNat, toNat_ofTarget hf]
  omega

@[simp]
theorem family_ofRegByte (x : Reg) (nn : Byte) : (ofRegByte family x nn).family.val = family := by
  have := nn.isLt
  rw [family_val, toNat_ofRegByte hf]
  omega

@[simp]
theorem x_ofRegByte (x : Reg) (nn : Byte) : (ofRegByte family x nn).x = x := by
  have := nn.isLt
  apply Fin.ext
  rw [x_val, toNat_ofRegByte hf]
  omega

@[simp]
theorem nn_ofRegByte (x : Reg) (nn : Byte) : (ofRegByte family x nn).nn = nn := by
  have := nn.isLt
  apply BitVec.eq_of_toNat_eq
  rw [nn_toNat, toNat_ofRegByte hf]
  omega

@[simp]
theorem family_ofRegReg (x y : Reg) (n : BitVec 4) :
    (ofRegReg family x y n).family.val = family := by
  have := n.isLt
  rw [family_val, toNat_ofRegReg hf]
  omega

@[simp]
theorem x_ofRegReg (x y : Reg) (n : BitVec 4) : (ofRegReg family x y n).x = x := by
  have := n.isLt
  apply Fin.ext
  rw [x_val, toNat_ofRegReg hf]
  omega

@[simp]
theorem y_ofRegReg (x y : Reg) (n : BitVec 4) : (ofRegReg family x y n).y = y := by
  have := n.isLt
  apply Fin.ext
  rw [y_val, toNat_ofRegReg hf]
  omega

@[simp]
theorem n_ofRegReg (x y : Reg) (n : BitVec 4) : (ofRegReg family x y n).n = n.toFin := by
  have := n.isLt
  apply Fin.ext
  rw [n_val, toNat_ofRegReg hf]
  show _ = n.toNat
  omega

end Word

end ChipEight
