import ChipEight.State.Exec

/-!
# Steps and runs

A step fetches the word at the program counter and executes it. A fault undoes the advance of the
program counter, so a halted machine points at the instruction that stopped it.
-/

namespace ChipEight.State

/-! ## Fetching -/

/-- Both bytes of a word at the program counter lie in memory. -/
def canFetch (s : State) : Bool := s.pc.toNat < Memory.lastAddress

/-- The word that a step would execute. -/
def opcode? (s : State) : Option Word :=
  if s.canFetch then some (s.memory.word s.pc.toNat) else none

/-- Reported as an address outside memory also where the high byte is still inside. -/
def fetchFault (s : State) : Fault := .badAddress (max s.pc.toNat (Memory.lastAddress + 1))

/-- Advances the program counter behind the word at it. A halted machine stays where it is, and gives
no word. -/
def fetch (s : State) : State × Option Word :=
  match s.opcode? with
  | none => (s.halt s.fetchFault, none)
  | some w => if s.isHalted then (s, none) else ({ s with pc := s.pc + 2 }, some w)

/-! ## Steps -/

def fetchAndExecute (s : State) : State :=
  match s.fetch with
  | (t, none) => t
  | (t, some w) =>
      let u := t.execute w
      if u.isHalted then { u with pc := s.pc } else u

def step (s : State) : State := if s.isHalted then s else s.fetchAndExecute

/-- At most `n` steps; none after a fault. -/
def run (s : State) : Nat → State
  | 0 => s
  | n + 1 => if s.isHalted then s else s.step.run n

end ChipEight.State
