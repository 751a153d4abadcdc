import ChipEight.Datum
import ChipEight.Numeral

/-!
# Progress of a scan

A scan of `n` iterations reports to a bar: the bar is opened before the first iteration, moved on by its
stride every so often, and filled up and closed after the last one.
-/

namespace ChipEight

inductive ProgressEvent where
  | opened
  | advanced (amount : Nat)
  | closed
deriving DecidableEq, Repr

structure ProgressBar where
  total : Nat
  /-- Iterations between two reports. -/
  stride : Nat
deriving DecidableEq, Repr

namespace ProgressBar

/-- A twentieth of the whole, or a wanted stride, kept between one and the whole; unasked at most
fifty. -/
def ofTotal (total : Nat) (wanted : Option Int := none) : ProgressBar :=
  match wanted with
  | none => ⟨total, max 1 (min (total / 20) 50)⟩
  | some rate => ⟨total, max 1 (min rate total).toNat⟩

/-- What is left over by whole strides. -/
def remainder (b : ProgressBar) : Nat := b.total % b.stride

/-! ## Reports -/

/-- Before iteration `i`. The report of the remainder takes the place of the one of a stride. -/
def before (b : ProgressBar) (i : Nat) : List ProgressEvent :=
  (if i = 0 then [.opened] else [])
    ++ (if i % b.stride = 0 ∧ i ≠ b.total - b.remainder ∧ 0 < i then [.advanced b.stride] else [])
    ++ (if i = b.total - b.remainder then [.advanced b.remainder] else [])

def amounts : List ProgressEvent → Nat
  | [] => 0
  | .advanced amount :: events => amount + amounts events
  | _ :: events => amounts events

/-- After iteration `i`, when `counted` has been reported so far: the last one fills the bar. -/
def after (b : ProgressBar) (counted i : Nat) : List ProgressEvent :=
  if i + 1 = b.total then [.advanced (b.total - counted), .closed] else []

/-- The result of a scan so far. -/
structure Trail (σ : Type) where
  carry : σ
  counted : Nat := 0
  /-- The last event comes first. -/
  reversed : List ProgressEvent := []

def Trail.report {σ : Type} (t : Trail σ) (events : List ProgressEvent) : Trail σ :=
  { t with counted := t.counted + amounts events, reversed := events.reverse ++ t.reversed }

def iterate {σ : Type} (b : ProgressBar) (step : σ → Nat → σ) (t : Trail σ) (i : Nat) : Trail σ :=
  let t := t.report (b.before i)
  let t := { t with carry := step t.carry i }
  t.report (b.after t.counted i)

def trail {σ : Type} (b : ProgressBar) (step : σ → Nat → σ) (start : σ) : Trail σ :=
  (List.range b.total).foldl (b.iterate step) { carry := start }

/-- The carry after all iterations, and the events in order. -/
def scan {σ : Type} (b : ProgressBar) (step : σ → Nat → σ) (start : σ) : σ × List ProgressEvent :=
  let t := b.trail step start
  (t.carry, t.reversed.reverse)

/-! ## Presentation -/

/-- Options that the bar decides itself. -/
def ownOptions : List String := ["total", "mininterval", "maxinterval", "miniters"]

/-- The description in use where none is given. -/
def plainDescription (b : ProgressBar) : String := "Running (" ++ Numeral.grouped b.total ++ " instructions)"

/-- How the bar is shown when it is opened. -/
def presentation (b : ProgressBar) (description : Datum) (options : List (String × Datum)) :
    List (String × Datum) :=
  let shown := match description with
    | .null => .text b.plainDescription
    | given => given
  [("total", .int b.total), ("desc", shown), ("unit", .text "instr")]
    ++ options.filter fun (name, _) => !ownOptions.contains name

end ProgressBar

end ChipEight
