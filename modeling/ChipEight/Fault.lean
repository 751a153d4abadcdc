import ChipEight.Numeral
import ChipEight.Word

/-!
# Faults

Four things stop the processor. A halted machine keeps the number of its fault and one word of
detail; a `Halt` is what a host is told.
-/

namespace ChipEight

inductive Fault where
  | illegalOpcode (code : Int)
  | stackOverflow
  | stackUnderflow
  | badAddress (address : Int)
deriving DecidableEq, Repr

namespace Fault

def number : Fault → Nat
  | .illegalOpcode _ => 1
  | .stackOverflow => 2
  | .stackUnderflow => 3
  | .badAddress _ => 4

def name : Fault → String
  | .illegalOpcode _ => "ILLEGAL_OPCODE"
  | .stackOverflow => "STACK_OVERFLOW"
  | .stackUnderflow => "STACK_UNDERFLOW"
  | .badAddress _ => "ADDRESS_ERROR"

/-- The detail kept in the machine: the offending code or address, and for the stack faults the
program counter. -/
def detail (f : Fault) (pc : Word) : Word :=
  match f with
  | .illegalOpcode code => .ofInt 16 code
  | .badAddress address => .ofInt 16 address
  | _ => pc

def message : Fault → String
  | .illegalOpcode code => "Illegal opcode 0x" ++ Numeral.hex 4 code
  | .stackOverflow => "Stack overflow: CALL with a full return stack"
  | .stackUnderflow => "Stack underflow: RET with an empty return stack"
  | .badAddress address => "Address 0x" ++ Numeral.hex 0 address ++ " is outside memory (0x000-0xFFF)"

/-- Why a number names no fault. -/
inductive NumberError where
  | running
  | unknown
deriving DecidableEq, Repr

/-- Zero stands for a running machine. -/
def ofNumber (number detail : Int) : Except NumberError Fault :=
  match number with
  | 0 => .error .running
  | 1 => .ok (.illegalOpcode detail)
  | 2 => .ok .stackOverflow
  | 3 => .ok .stackUnderflow
  | 4 => .ok (.badAddress detail)
  | _ => .error .unknown

end Fault

/-- The name of the state without a fault, as it is reported. -/
def Fault.NumberError.message : Fault.NumberError → String
  | .running => "Fault code <Fault.NONE: 0> does not describe an error"
  | .unknown => ""

/-- A fault together with the address of its instruction, where that is known. -/
structure Halt where
  fault : Fault
  pc : Option Int := none
deriving DecidableEq, Repr

def Halt.message (h : Halt) : String :=
  match h.pc with
  | none => h.fault.message
  | some pc => h.fault.message ++ " (at PC=0x" ++ Numeral.hex 3 pc ++ ")"

end ChipEight
