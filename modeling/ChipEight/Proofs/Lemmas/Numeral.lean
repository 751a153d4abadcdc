import ChipEight.Numeral
import Mathlib

/-!
# Reading hexadecimal numerals

A numeral of any width gives its integer back (`readHex_hex`), so that no two integers share one.
-/

namespace ChipEight.Numeral

/-! ## Digits -/

def digitValue (c : Char) : Nat := if c.isDigit then c.toNat - 48 else c.toNat - 55

def ofHexDigits (digits : List Char) : Nat := digits.foldl (fun n c => 16 * n + digitValue c) 0

def HexDigit (c : Char) : Prop := ∃ d < 16, c = d.digitChar.toUpper

theorem digitValue_digitChar : ∀ d < 16, digitValue d.digitChar.toUpper = d := by decide

theorem HexDigit.ne {c c' : Char} (h : HexDigit c) (h' : ∀ d < 16, d.digitChar.toUpper ≠ c') : c ≠ c' := by
  obtain ⟨d, hd, rfl⟩ := h
  exact h' d hd

theorem ofHexDigits_concat (digits : List Char) (c : Char) :
    ofHexDigits (digits ++ [c]) = 16 * ofHexDigits digits + digitValue c := by
  simp [ofHexDigits]

theorem ofHexDigits_zeros (k : Nat) (digits : List Char) :
    ofHexDigits (List.replicate k '0' ++ digits) = ofHexDigits digits := by
  induction k with
  | zero => rfl
  | succ k ih => exact ih

theorem hexDigits_of_lt {n : Nat} (h : n < 16) : hexDigits n = [n.digitChar.toUpper] := by
  rw [hexDigits, Nat.toDigits_of_lt_base h, List.map_singleton]

theorem hexDigits_of_le {n : Nat} (h : 16 ≤ n) :
    hexDigits n = hexDigits (n / 16) ++ [(n % 16).digitChar.toUpper] := by
  rw [hexDigits, Nat.toDigits_of_base_le (by decide) h, List.map_append, List.map_singleton, hexDigits]

theorem ofHexDigits_hexDigits (n : Nat) : ofHexDigits (hexDigits n) = n := by
  induction n using Nat.strongRecOn with
  | ind n ih =>
      rcases Nat.lt_or_ge n 16 with h | h
      · rw [hexDigits_of_lt h]
        simp [ofHexDigits, digitValue_digitChar n h]
      · rw [hexDigits_of_le h, ofHexDigits_concat, ih _ (by omega), digitValue_digitChar _ (by omega)]
        omega

theorem hexDigit_of_mem {n : Nat} {c : Char} (h : c ∈ hexDigits n) : HexDigit c := by
  induction n using Nat.strongRecOn with
  | ind n ih =>
      rcases Nat.lt_or_ge n 16 with hn | hn
      · rw [hexDigits_of_lt hn, List.mem_singleton] at h
        exact ⟨n, hn, h⟩
      · rw [hexDigits_of_le hn, List.mem_append, List.mem_singleton] at h
        rcases h with h | rfl
        · exact ih _ (by omega) h
        · exact ⟨n % 16, by omega, rfl⟩

/-! ## Numerals -/

theorem toList_hex_natCast (width n : Nat) : (hex width n).toList =
    List.replicate (width - (hexDigits n).length) '0' ++ hexDigits n := by
  have hn : ¬(n : Int) < 0 := by omega
  simp [hex, padded, hn]

theorem toList_hex_of_neg (width : Nat) {z : Int} (hz : z < 0) : (hex width z).toList =
    '-' :: (List.replicate (width - 1 - (hexDigits z.natAbs).length) '0' ++ hexDigits z.natAbs) := by
  simp [hex, padded, hz]

theorem hexDigit_of_mem_hex {width n : Nat} {c : Char} (h : c ∈ (hex width n).toList) : HexDigit c := by
  rw [toList_hex_natCast, List.mem_append] at h
  rcases h with h | h
  · exact ⟨0, by decide, List.eq_of_mem_replicate h⟩
  · exact hexDigit_of_mem h

theorem ofHexDigits_hex (width n : Nat) : ofHexDigits (hex width n).toList = n := by
  rw [toList_hex_natCast, ofHexDigits_zeros, ofHexDigits_hexDigits]

theorem length_hex {width n : Nat} (hw : 0 < width) (hn : n < 16 ^ width) :
    (hex width n).toList.length = width := by
  have hle : (hexDigits n).length ≤ width := by
    rw [hexDigits, List.length_map]
    exact (Nat.length_toDigits_le_iff (by decide) hw).mpr hn
  rw [toList_hex_natCast, List.length_append, List.length_replicate]
  omega

/-- The integer of a numeral, which begins with a sign if it is negative. -/
def readHex : List Char → Int
  | '-' :: digits => -(ofHexDigits digits : Int)
  | digits => ofHexDigits digits

theorem readHex_of_hexDigits {digits : List Char} (h : ∀ c ∈ digits, HexDigit c) :
    readHex digits = ofHexDigits digits := by
  unfold readHex
  split
  · exact absurd rfl ((h '-' List.mem_cons_self).ne (by decide))
  · rfl

/-- The sign counts towards the width, but neither it nor the padding hides a digit. -/
theorem readHex_hex (width : Nat) (z : Int) : readHex (hex width z).toList = z := by
  rcases lt_or_ge z 0 with hz | hz
  · rw [toList_hex_of_neg width hz, readHex, ofHexDigits_zeros, ofHexDigits_hexDigits]
    omega
  · obtain ⟨n, rfl⟩ := Int.eq_ofNat_of_zero_le hz
    rw [readHex_of_hexDigits fun c => hexDigit_of_mem_hex, ofHexDigits_hex]

theorem hex_injective (width : Nat) : Function.Injective (hex width) := by
  intro a b h
  rw [← readHex_hex width a, h, readHex_hex]

end ChipEight.Numeral
