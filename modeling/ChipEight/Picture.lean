import ChipEight.Datum
import ChipEight.Word

/-!
# Pictures

A picture shows a grid of lit and unlit cells in two colours, each cell as a square of pixels.
-/

namespace ChipEight

structure Rgb where
  red : Byte
  green : Byte
  blue : Byte
deriving DecidableEq, Repr

inductive PictureError where
  /-- The rows differ in length, or there are none. -/
  | shape
  | channelRange
  | channelValue
  /-- A colour has one channel or three. -/
  | channelCount
  | notANumber
deriving DecidableEq, Repr

namespace Rgb

def white : Rgb := ⟨255, 255, 255⟩

def black : Rgb := ⟨0, 0, 0⟩

/-! ## Colours as they are given -/

/-- An integer has to be a byte. Of any other number the fraction is cut off and the low byte kept. -/
def channel (d : Datum) : Except PictureError Byte :=
  match d, d.toInteger with
  | .int _, .ok z => if 0 ≤ z ∧ z ≤ 255 then .ok (.ofInt 8 z) else .error .channelRange
  | _, .ok z => if -0x8000000000000000 ≤ z ∧ z < 0x8000000000000000 then .ok (.ofInt 8 z)
      else .error .channelRange
  | _, .error .notFinite => .error .channelRange
  | _, .error .unreadable => .error .channelValue
  | _, .error .notANumber => .error .notANumber

/-- All channels are read before they are counted. A single one stands for all three. -/
def ofDatum (d : Datum) : Except PictureError Rgb := do
  let channels ← match d with
    | .list items => items.mapM channel
    | single => (channel single).map ([·])
  match channels with
  | [c] => return ⟨c, c, c⟩
  | [r, g, b] => return ⟨r, g, b⟩
  | _ => throw .channelCount

end Rgb

/-! ## Pictures -/

/-- Rows of pixels, from the top. -/
abbrev Picture := List (List Rgb)

namespace Picture

/-- Rows of cells that are lit or not. -/
abbrev Cells := List (List Bool)

/-- All rows are as long as the first one. -/
def width? (cells : Cells) : Option Nat :=
  match cells with
  | [] => none
  | row :: rest => if rest.all (·.length = row.length) then some row.length else none

/-- Repeats each item. -/
def enlarge {α : Type} (times : Nat) (items : List α) : List α := items.flatMap (List.replicate times)

def paint (on off : Rgb) (cells : Cells) : Picture := cells.map (·.map fun lit => if lit then on else off)

def magnify (times : Nat) (p : Picture) : Picture := enlarge times (p.map (enlarge times))

/-- Cells are not shrunk, and the fraction of a scale is cut off. -/
def timesOfScale (scale : Datum) : Except PictureError Nat :=
  match scale, scale.toInteger with
  | .text _, _ => .error .notANumber
  | _, .ok z => .ok (max z 1).toNat
  | _, .error .notANumber => .error .notANumber
  | _, .error _ => .error .channelRange

/-- The cells of a grid with at least one row and rows of one length. -/
def checkCells (cells : Cells) : Except PictureError Nat :=
  match width? cells with
  | some w => .ok w
  | none => .error .shape

def ofCells (cells : Cells) (scale : Int) (on off : Rgb) : Except PictureError Picture := do
  let _ ← checkCells cells
  return magnify (max scale 1).toNat (paint on off cells)

/-- The grid is looked at before the colours, the colours before the scale. -/
def ofData (cells : Cells) (scale on off : Datum) : Except PictureError Picture := do
  let _ ← checkCells cells
  let on ← Rgb.ofDatum on
  let off ← Rgb.ofDatum off
  ofCells cells (← timesOfScale scale) on off

end Picture

end ChipEight
