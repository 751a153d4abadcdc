import ChipEight.Word

/-!
# Memory

4096 bytes. A read outside gives zero and a write outside does nothing; the instructions check
their bounds before they come here.
-/

namespace ChipEight

abbrev Memory := Vector Byte 4096

namespace Memory

def lastAddress : Nat := 0xFFF

def zeroed : Memory := Vector.replicate 4096 0

def read (m : Memory) (a : Nat) : Byte := m[a]?.getD 0

def write (m : Memory) (a : Nat) (b : Byte) : Memory := m.setIfInBounds a b

/-- Writes to consecutive addresses. -/
def writeBytes (m : Memory) (a : Nat) : List Byte → Memory
  | [] => m
  | b :: bs => (m.write a b).writeBytes (a + 1) bs

/-- The word whose high byte is at an address. -/
def word (m : Memory) (a : Nat) : Word := .ofBytes (m.read a) (m.read (a + 1))

/-! ## Glyphs -/

def glyphStart : Nat := 0x050

def glyphSize : Nat := 5

/-- The sixteen hexadecimal digits, five rows each. -/
def glyphs : List Byte :=
  [0xF0, 0x90, 0x90, 0x90, 0xF0,
   0x20, 0x60, 0x20, 0x20, 0x70,
   0xF0, 0x10, 0xF0, 0x80, 0xF0,
   0xF0, 0x10, 0xF0, 0x10, 0xF0,
   0x90, 0x90, 0xF0, 0x10, 0x10,
   0xF0, 0x80, 0xF0, 0x10, 0xF0,
   0xF0, 0x80, 0xF0, 0x90, 0xF0,
   0xF0, 0x10, 0x20, 0x40, 0x40,
   0xF0, 0x90, 0xF0, 0x90, 0xF0,
   0xF0, 0x90, 0xF0, 0x10, 0xF0,
   0xF0, 0x90, 0xF0, 0x90, 0x90,
   0xE0, 0x90, 0xE0, 0x90, 0xE0,
   0xF0, 0x80, 0x80, 0x80, 0xF0,
   0xE0, 0x90, 0x90, 0x90, 0xE0,
   0xF0, 0x80, 0xF0, 0x80, 0xF0,
   0xF0, 0x80, 0xF0, 0x80, 0x80]

def withGlyphs : Memory := zeroed.writeBytes glyphStart glyphs

end Memory

end ChipEight
