import ChipEight.Word

/-!
# The screen

Thirty-two rows of sixty-four pixels. In the word of a row the leftmost pixel is the most
significant bit, so that a sprite byte enters a row from the left.
-/

namespace ChipEight

abbrev Row := BitVec 64

abbrev Screen := Vector Row 32

namespace Screen

def blank : Screen := Vector.replicate 32 0

def pixel (s : Screen) (x : Fin 64) (y : Fin 32) : Bool := s[y].getMsbD x

/-- Flips the pixels of `s` that are lit in `t`. -/
def flip (s t : Screen) : Screen := Vector.zipWith (· ^^^ ·) s t

/-- Some pixel is lit in both. -/
def overlaps (s t : Screen) : Bool := (Vector.zipWith (· &&& ·) s t).any (· != 0)

/-! ## Sprites -/

/-- A sprite byte with its left end at a column. Bits behind the right edge come in again from the
left or are lost. -/
def spriteRow (wrap : Bool) (x : Fin 64) (b : Byte) : Row :=
  let atLeft := b ++ (0 : BitVec 56)
  if wrap then atLeft.rotateRight x else atLeft >>> x.val

/-- The row of a sprite that falls on screen row `y` when its top is at `top`. -/
def spriteLine? (wrap : Bool) (top y : Fin 32) : Option Nat :=
  if wrap then some (y - top).val else if top ≤ y then some (y.val - top.val) else none

/-- The screen that shows one sprite of `n` rows and nothing else. -/
def sprite (wrap : Bool) (x : Fin 64) (top : Fin 32) (n : Nat) (line : Nat → Byte) : Screen :=
  Vector.ofFn fun y =>
    match spriteLine? wrap top y with
    | some r => if r < n then spriteRow wrap x (line r) else 0
    | none => 0

end Screen

end ChipEight
