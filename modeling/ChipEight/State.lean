import ChipEight.CallStack
import ChipEight.Dialect
import ChipEight.Fault
import ChipEight.Keypad
import ChipEight.Memory
import ChipEight.Random
import ChipEight.Screen

/-!
# The state of the machine

A fault is part of the state: its number is zero while the machine runs.
-/

namespace ChipEight

structure State where
  rng : Key
  memory : Memory := Memory.zeroed
  pc : Word := 0x200
  screen : Screen := Screen.blank
  stack : CallStack := {}
  delay : Byte := 0
  sound : Byte := 0
  keypad : Keypad := Keypad.released
  v : Vector Byte 16 := Vector.replicate 16 0
  index : Word := 0
  /-- A tick has passed since the last draw. -/
  ticked : Bool := false
  fault : Byte := 0
  detail : Word := 0
  dialect : Dialect := {}
deriving DecidableEq, Repr

namespace State

/-- A machine with nothing but the glyphs in memory. -/
def fresh (rng : Key) (dialect : Dialect) (entry : Word) : State :=
  { rng, dialect, pc := entry, memory := Memory.withGlyphs }

/-! ## Faults -/

def isHalted (s : State) : Bool := s.fault != 0

/-- Records a fault and changes nothing else. -/
def halt (s : State) (f : Fault) : State :=
  { s with fault := .ofNat 8 f.number, detail := f.detail s.pc }

/-- The fault that is recorded, as a host is told of it. -/
def haltReason (s : State) : Except Fault.NumberError Halt := do
  let f ← Fault.ofNumber s.fault.toNat s.detail.toNat
  return { fault := f, pc := some s.pc.toNat }

/-! ## Timers -/

/-- A timer counts down to zero and stays there. -/
def countDown (timer : Byte) : Byte := if timer = 0 then 0 else timer - 1

/-- One period of the display: both timers go down and a waiting draw is let through. -/
def tick (s : State) : State :=
  { s with delay := countDown s.delay, sound := countDown s.sound, ticked := true }

/-- The tone sounds while its timer runs. -/
def soundOn (s : State) : Bool := s.sound != 0

end State

end ChipEight
