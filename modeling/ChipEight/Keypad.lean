import ChipEight.Word

/-!
# The keypad

Sixteen keys, each up or down.
-/

namespace ChipEight

abbrev Keypad := Vector Bool 16

namespace Keypad

def released : Keypad := Vector.replicate 16 false

def lowestPressed? (k : Keypad) : Option (Fin 16) := k.findFinIdx? id

/-- A register selects a key by its low nibble. -/
def ofReg (k : Keypad) (b : Byte) : Bool := k[(b.extractLsb' 0 4).toFin]

end Keypad

end ChipEight
