import ChipEight.State

/-!
# Loading a program

Loading resets everything but the dialect. The random key moves on, so that a program that is loaded
again does not see the numbers of the last run.
-/

namespace ChipEight

inductive LoadError where
  | entryPoint (entry : Int)
  | capacity (size room : Int)
deriving DecidableEq, Repr

def LoadError.message : LoadError → String
  | .entryPoint entry =>
      "Entry point 0x" ++ Numeral.hex 0 entry ++ " is outside the program area (0x200-0xFFF)"
  | .capacity size room =>
      "ROM of " ++ toString size ++ " bytes does not fit in " ++ toString room
        ++ " bytes of program memory"

namespace State

/-- Below it lie the glyphs and room for an interpreter. -/
def programStart : Int := 0x200

def load (s : State) (program : List Byte) (entry : Int) : Except LoadError State :=
  if programStart ≤ entry ∧ entry ≤ 0xFFF then
    let room := 0x1000 - entry
    if room < program.length then .error (.capacity program.length room)
    else
      let t := fresh s.rng.next s.dialect (.ofInt 16 entry)
      .ok { t with memory := t.memory.writeBytes entry.toNat program }
  else .error (.entryPoint entry)

/-! ## Starting values -/

/-- A number that does not fit where it is kept. -/
inductive StartError where
  | seed (seed : Int)
  | entryPoint (entry : Int)
deriving DecidableEq, Repr

/-- A seed is a signed word of sixty-four bits. -/
def startKey (seed : Int) : Except StartError Key :=
  if -0x8000000000000000 ≤ seed ∧ seed < 0x8000000000000000 then .ok (.ofSeed seed)
  else .error (.seed seed)

/-- A machine before the first load; its entry point may lie anywhere in sixteen bits. -/
def start (rng : Key) (dialect : Dialect) (entry : Int) : Except StartError State :=
  if 0 ≤ entry ∧ entry < 0x10000 then .ok (fresh rng dialect (.ofInt 16 entry))
  else .error (.entryPoint entry)

end State

end ChipEight
