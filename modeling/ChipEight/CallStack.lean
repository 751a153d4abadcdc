import ChipEight.Word

/-!
# The return stack

Sixteen slots and a pointer to the first free one. The pointer is a byte of its own, and a machine
put together by hand may hold any: a stack is full from sixteen on.
-/

namespace ChipEight

structure CallStack where
  slots : Vector Word 16 := Vector.replicate 16 0
  pointer : Byte := 0
deriving DecidableEq, Repr

namespace CallStack

def isFull (s : CallStack) : Bool := 16 ≤ s.pointer.toNat

def isEmpty (s : CallStack) : Bool := s.pointer = 0

def push (s : CallStack) (address : Word) : CallStack :=
  ⟨s.slots.setIfInBounds s.pointer.toNat address, s.pointer + 1⟩

/-- The slot below the pointer; the last one where the pointer is past the end. -/
def top (s : CallStack) : Word := s.slots[min (s.pointer - 1).toNat 15]

/-- A slot that is given up is cleared. -/
def drop (s : CallStack) : CallStack :=
  ⟨s.slots.setIfInBounds (s.pointer - 1).toNat 0, s.pointer - 1⟩

end CallStack

end ChipEight
