import Mathlib

/-!
# Lists of blocks

A list that is made of blocks of one length, one for each item of another list.
-/

namespace ChipEight

variable {α β : Type} {k : Nat} {f : α → List β} (hf : ∀ a, (f a).length = k)
include hf

theorem length_flatMap (as : List α) : (as.flatMap f).length = k * as.length := by
  simp [List.length_flatMap, hf, List.map_const', Nat.mul_comm]

theorem getElem?_flatMap (as : List α) (i : Nat) {j : Nat} (hj : j < k) :
    (as.flatMap f)[k * i + j]? = as[i]?.bind fun a => (f a)[j]? := by
  induction as generalizing i with
  | nil => simp
  | cons a as ih =>
      cases i with
      | zero => simp [List.getElem?_append_left, hf, hj]
      | succ i =>
          have hle : (f a).length ≤ k * (i + 1) + j := by rw [hf, Nat.mul_succ]; omega
          rw [List.flatMap_cons, List.getElem?_append_right hle, hf, List.getElem?_cons_succ, ← ih i]
          congr 1
          rw [Nat.mul_succ]
          omega

end ChipEight
