import ChipEight.Log
import ChipEight.Progress
import ChipEight.Snapshot
import ChipEight.State.Access
import ChipEight.State.Load
import ChipEight.State.Step

/-!
# Machines

A machine holds a state for a host, together with the reason why it halted, the latest instructions and a
log. A halted machine refuses to go on until it is loaded or restored.
-/

namespace ChipEight

/-- An instruction that a single step executed. -/
structure TraceEntry where
  address : Word
  opcode : Word
  text : String
deriving DecidableEq, Repr

structure Machine where
  /-- Where programs are loaded and started. -/
  entry : Int
  /-- How many instructions the history holds at most. -/
  traceLength : Option Nat
  dialect : Dialect
  logger : Logger
  state : State
  /-- The latest instruction comes first. -/
  history : List TraceEntry := []
  haltReason : Option Halt := none

/-- Why a step or a run did not come to its end. -/
inductive Stop where
  | halt (h : Halt)
  /-- The state holds a number that names no fault. -/
  | unnamedFault (e : Fault.NumberError)
deriving DecidableEq, Repr

inductive RestoreError where
  | snapshot (e : SnapshotError)
  | unnamedFault (e : Fault.NumberError)
deriving DecidableEq, Repr

namespace Machine

def isHalted (m : Machine) : Bool := m.haltReason.isSome

/-! ## Making and loading -/

/-- The history is no longer than this. -/
def maxTraceLength : Int := 0x7FFFFFFFFFFFFFFF

inductive ConfigError where
  | traceLength (length : Int)
  | start (e : State.StartError)
deriving DecidableEq, Repr

/-- The length of the history is looked at first, then the seed and the entry point. -/
def create (entry seed : Int) (traceLength : Option Int) (dialect : Dialect) (logger : Logger) :
    Except ConfigError Machine := do
  if let some length := traceLength then
    if length < 0 || maxTraceLength < length then throw (.traceLength length)
  let rng ← (State.startKey seed).mapError .start
  let state ← (State.start rng dialect entry).mapError .start
  return { entry, traceLength := traceLength.map Int.toNat, dialect, logger, state }

/-- A program that is refused leaves the machine as it was. -/
def load (m : Machine) (program : List Byte) : Except LoadError Machine := do
  let state ← m.state.load program m.entry
  return { m with
    state
    history := []
    haltReason := none
    logger := m.logger.record (.loaded program.length m.entry (some m.dialect)) }

/-! ## Going on -/

/-- Halts the machine if its state has a fault. -/
def settle (m : Machine) : Except Stop Unit × Machine :=
  if m.state.isHalted then
    match m.state.haltReason with
    | .ok h => (.error (.halt h), { m with haltReason := some h, logger := m.logger.record (.halted h) })
    | .error e => (.error (.unnamedFault e), m)
  else (.ok (), m)

def remember (m : Machine) (entry : TraceEntry) : Machine :=
  let history := entry :: m.history
  { m with
    history := match m.traceLength with
      | some n => history.take n
      | none => history }

/-- Enters an instruction into the history and the log. -/
def note (m : Machine) (address opcode : Word) : Machine :=
  let m := m.remember ⟨address, opcode, disassemble (some m.dialect) opcode.toNat⟩
  { m with logger := m.logger.record (.executed address.toNat opcode.toNat (some m.dialect)) }

/-- The word at the program counter, read for the history and the log and not by the fetch of the step. -/
def currentOpcode? (m : Machine) : Option Word :=
  let address := m.state.pc.toNat
  if Memory.lastAddress ≤ address then none
  else
    let high := m.state.memory.read address
    let low := m.state.memory.read (address + 1)
    some (high.setWidth 16 <<< 8 ||| low.setWidth 16)

/-- An instruction is noted also where it faults or waits, but not where there was none to fetch. -/
def step (m : Machine) : Except Stop Unit × Machine :=
  match m.haltReason with
  | some h => (.error (.halt h), m)
  | none =>
      let stepped := { m with state := m.state.step }
      match m.currentOpcode? with
      | some opcode => (stepped.note m.state.pc opcode).settle
      | none => stepped.settle

/-- The state after `n` steps, and what a bar was told of them. -/
def advance (s : State) (n : Int) (progress : Bool) : State × List ProgressEvent :=
  if progress then (ProgressBar.ofTotal n.toNat).scan (fun s _ => s.step) s
  else (s.run n.toNat, [])

/-- Runs are timed. They do not enter the history. -/
def run (m : Machine) (n : Int) (progress : Bool := false) :
    Except Stop (List ProgressEvent) × Machine :=
  match m.haltReason with
  | some h => (.error (.halt h), m)
  | none =>
      let (started, logger) := m.logger.now
      let (state, events) := advance m.state n progress
      let (stopped, logger) := logger.now
      let (result, m) := { m with state, logger := logger.record (.ran n (stopped - started)) }.settle
      (result.map fun _ => events, m)

/-! ## The host's side -/

/-- One period of the timers. -/
def tick (m : Machine) : Machine := { m with state := m.state.tick }

def setKey (m : Machine) (k : Int) (pressed : Bool) : Except AccessError Machine :=
  (m.state.setKey k pressed).map fun state => { m with state }

def writeByte (m : Machine) (a : Int) (value : Datum) : Except AccessError Machine :=
  (m.state.writeByte a value).map fun state => { m with state }

/-! ## Snapshots -/

def save (m : Machine) : Bytes := m.state.save

/-- The state is replaced before its fault is looked at. -/
def restore (m : Machine) (data : Bytes) : Except RestoreError Unit × Machine :=
  match m.state.restore data with
  | .error e => (.error (.snapshot e), m)
  | .ok state =>
      let m := { m with state, history := [] }
      if state.isHalted then
        match state.haltReason with
        | .ok h => (.ok (), { m with haltReason := some h })
        | .error e => (.error (.unnamedFault e), m)
      else (.ok (), { m with haltReason := none })

end Machine

end ChipEight
