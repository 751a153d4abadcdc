import ChipEight.Clock
import ChipEight.Decimal.Fixed
import ChipEight.Fault
import ChipEight.Instr.Assembly
import ChipEight.Log.Level

/-!
# The log

A logger keeps the lines that its threshold admits. What happens to a machine is an event, and an event
says which lines it writes.
-/

namespace ChipEight

/-! ## Events -/

inductive LogEvent where
  | loaded (size : Nat) (entry : Int) (dialect : Option Dialect)
  | executed (address code : Int) (dialect : Option Dialect)
  | halted (h : Halt)
  | ran (instructions : Int) (elapsed : Float)

namespace Log

/-- Elapsed seconds have three places. -/
def elapsedFormat : Decimal.FixedFormat := { places := 3 }

/-- Instructions a second have no places, and commas between the thousands. -/
def rateFormat : Decimal.FixedFormat := { places := 0, grouped := true }

/-- No rate can be told where no time has passed. -/
def rate (instructions : Int) (elapsed : Float) : Float :=
  if elapsed > 0 then .ofInt instructions / elapsed else 1.0 / 0.0

def dialectText : Option Dialect → String
  | some d => d.text
  | none => "None"

end Log

open Log in
/-- The level and the message of each line. -/
def LogEvent.messages : LogEvent → List (Level × String)
  | .loaded size entry dialect =>
      [(.info, "Loaded " ++ toString size ++ " byte ROM at 0x" ++ Numeral.hex 3 entry),
       (.debug, "  quirks: " ++ dialectText dialect)]
  | .executed address code dialect =>
      [(.debug, "0x" ++ Numeral.hex 3 address ++ ": " ++ Numeral.hex 4 code ++ "  "
        ++ disassemble dialect code)]
  | .halted h => [(.error, "CPU halted: " ++ h.message)]
  | .ran instructions elapsed =>
      [(.debug, "Ran " ++ Numeral.grouped instructions ++ " instructions in "
        ++ elapsedFormat.text elapsed ++ "s (" ++ rateFormat.text (rate instructions elapsed) ++ "/s)")]

/-! ## Loggers -/

structure LogLine where
  /-- Seconds since the logger was made, where lines carry them. -/
  stamp : Option Float
  level : String
  message : String

structure Logger where
  name : String
  /-- The level below which nothing is written. -/
  threshold : String
  colored : Bool
  stamped : Bool
  started : Float
  clock : Clock
  lines : Array LogLine := #[]

/-- How a logger is asked for. -/
structure Logger.Config where
  name : String := "chip8vm"
  threshold : String := "INFO"
  wantsColors : Bool := true
  /-- Whether the lines go to a terminal; nothing else is coloured. -/
  terminal : Bool := false
  stamped : Bool := true

namespace Logger

/-- The threshold of a machine's own logger. -/
def machineThreshold : String := "WARNING"

/-- Reads the clock once, for the time from which lines are stamped. -/
def start (config : Config) (clock : Clock) : Logger :=
  let (started, clock) := clock.read
  { name := config.name
    threshold := config.threshold
    colored := config.wantsColors && config.terminal
    stamped := config.stamped
    started, clock }

def now (l : Logger) : Float × Logger :=
  let (t, clock) := l.clock.read
  (t, { l with clock })

def admits (l : Logger) (level : String) : Bool := Log.rankOf l.threshold ≤ Log.rankOf level

/-- A line that is not admitted does not read the clock. -/
def write (l : Logger) (level message : String) : Logger :=
  if l.admits level then
    if l.stamped then
      let (t, l) := l.now
      { l with lines := l.lines.push ⟨some (t - l.started), level, message⟩ }
    else { l with lines := l.lines.push ⟨none, level, message⟩ }
  else l

def record (l : Logger) (e : LogEvent) : Logger :=
  e.messages.foldl (fun l (level, message) => l.write level.name message) l

/-! ## Texts of lines -/

/-- Stamps have two places in eight columns. -/
def stampFormat : Decimal.FixedFormat := { places := 2, width := 8 }

/-- Levels are right-aligned in eight columns. -/
def levelField (level : String) : String :=
  "[" ++ "".pushn ' ' (8 - level.length) ++ level ++ "]"

def lineText (l : Logger) (line : LogLine) : String :=
  let stamp := match line.stamp with
    | some t => "[" ++ stampFormat.text t ++ "s]"
    | none => ""
  let level := levelField line.level
  let level := if l.colored then Log.colorOf line.level ++ level ++ Log.resetColor else level
  stamp ++ level ++ "[" ++ l.name ++ "] " ++ line.message ++ "\n"

/-- What was written after the first lines. -/
def textSince (l : Logger) (skipped : Nat) : String :=
  String.join ((l.lines.toList.drop skipped).map l.lineText)

end Logger

end ChipEight
