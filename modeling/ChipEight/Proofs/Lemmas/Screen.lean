import ChipEight.Screen
import Mathlib

/-!
# Screens by their pixels

A screen is known by its pixels (`ext_pixel`), so that flipping, overlapping and sprites are told apart by what
they do at one place. Of a sprite that is the bit at the distance of the place from the sprite's origin
(`pixel_sprite`).
-/

namespace ChipEight.Screen

variable {s t : Screen} {x : Fin 64} {y : Fin 32}

theorem ext_pixel (h : ∀ x y, s.pixel x y = t.pixel x y) : s = t :=
  Vector.ext fun y hy => BitVec.eq_of_getMsbD_eq fun x hx => h ⟨x, hx⟩ ⟨y, hy⟩

theorem pixel_flip : (s.flip t).pixel x y = (s.pixel x y ^^ t.pixel x y) := by
  simp [pixel, flip]

theorem row_ne_zero_iff {r : Row} : r ≠ 0 ↔ ∃ x : Fin 64, r.getMsbD x = true := by
  constructor
  · intro hr
    by_contra hdark
    refine hr (BitVec.eq_of_getMsbD_eq fun x hx => ?_)
    simpa using not_exists.mp hdark ⟨x, hx⟩
  · rintro ⟨x, hx⟩ rfl
    simp at hx

theorem overlaps_eq_true : s.overlaps t = true ↔ ∃ x y, s.pixel x y = true ∧ t.pixel x y = true := by
  simp only [overlaps, Vector.any_eq_true, Vector.getElem_zipWith, bne_iff_ne, row_ne_zero_iff,
    BitVec.getMsbD_and, Bool.and_eq_true]
  constructor
  · rintro ⟨y, hy, x, hlit⟩
    exact ⟨x, ⟨y, hy⟩, hlit⟩
  · rintro ⟨x, y, hlit⟩
    exact ⟨y, y.isLt, x, hlit⟩

/-! ## Sprites -/

/-- How far a place of an axis lies behind an origin, on a ring or on a line. -/
def offset? {m : Nat} (wrap : Bool) (origin p : Fin m) : Option Nat :=
  if wrap then some (p - origin).val
  else if origin ≤ p then some (p.val - origin.val)
  else none

/-- The bits of a row that starts with a byte are those of the byte. -/
theorem getMsbD_atLeft (b : Byte) (i : Nat) : (b ++ (0 : BitVec 56)).getMsbD i = b.getMsbD i := by
  rw [BitVec.getMsbD_append]
  split
  · rename_i hi
    rw [BitVec.getMsbD_of_ge b i hi]
    exact BitVec.getMsbD_zero
  · rfl

theorem getMsbD_spriteRow {wrap : Bool} {left : Fin 64} {b : Byte} :
    (spriteRow wrap left b).getMsbD x = (offset? wrap left x).any b.getMsbD := by
  cases wrap with
  | true =>
      have hleft : left.val % 64 = left.val := Nat.mod_eq_of_lt left.isLt
      have hwrapped (h : x < left) : (64 + x.val - left.val) % 64 = (x - left).val := by
        rw [Fin.coe_sub_iff_lt.mpr h, Nat.mod_eq_of_lt (by omega)]
      simp only [spriteRow, if_true, BitVec.getMsbD_rotateRight, hleft, getMsbD_atLeft, offset?,
        Option.any_some, x.isLt, decide_true, Bool.true_and]
      split
      · rw [hwrapped (by assumption)]
      · rw [Fin.sub_val_of_le (by omega)]
  | false =>
      simp only [spriteRow, Bool.false_eq_true, if_false, BitVec.getMsbD_ushiftRight, getMsbD_atLeft,
        offset?, x.isLt, decide_true, Bool.true_and]
      by_cases h : left ≤ x
      · simp [h]
      · simp [h]

theorem pixel_sprite {wrap : Bool} {left : Fin 64} {top : Fin 32} {n : Nat} {line : Nat → Byte} :
    (sprite wrap left top n line).pixel x y = true ↔
      ∃ c r, offset? wrap left x = some c ∧ offset? wrap top y = some r ∧ r < n ∧
        (line r).getMsbD c = true := by
  have hrow : spriteLine? wrap top y = offset? wrap top y := rfl
  rw [pixel, sprite, Fin.getElem_fin, Vector.getElem_ofFn]
  cases hr : offset? wrap top y with
  | none => simp [hrow, hr]
  | some r =>
      simp only [hrow, hr, Option.some.injEq]
      by_cases hn : r < n
      · simp [hn, getMsbD_spriteRow, Option.any_eq_true]
      · simp [hn]

end ChipEight.Screen
