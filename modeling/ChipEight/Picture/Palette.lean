import ChipEight.Picture

/-!
# Palettes

Named pairs of colours for lit and unlit cells.
-/

namespace ChipEight

structure Palette where
  on : Rgb
  off : Rgb
deriving DecidableEq, Repr

/-- A name that no palette has. -/
structure UnknownPalette where
  name : String
deriving DecidableEq, Repr

def UnknownPalette.message (e : UnknownPalette) : String :=
  "Unknown color scheme '" ++ e.name ++ "'. Available: ['classic', 'green', 'amber', 'blue', 'retro']"

namespace Palette

def all : List (String × Palette) :=
  [("classic", ⟨⟨255, 255, 255⟩, ⟨0, 0, 0⟩⟩),
   ("green", ⟨⟨0, 255, 0⟩, ⟨0, 0, 0⟩⟩),
   ("amber", ⟨⟨255, 176, 0⟩, ⟨0, 0, 0⟩⟩),
   ("blue", ⟨⟨0, 255, 255⟩, ⟨0, 0, 64⟩⟩),
   ("retro", ⟨⟨255, 255, 0⟩, ⟨64, 0, 64⟩⟩)]

def named (name : String) : Except UnknownPalette Palette :=
  match all.lookup name with
  | some p => .ok p
  | none => .error ⟨name⟩

end Palette

end ChipEight
