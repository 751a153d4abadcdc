/-!
# Dialects

Interpreters of different ages disagree on six points. A dialect answers each of them.
-/

namespace ChipEight

structure Dialect where
  /-- The shifts read VY; otherwise they shift VX in place. -/
  shiftsReadVy : Bool := false
  /-- A block transfer leaves I behind the last register; otherwise I stays. -/
  transfersMoveIndex : Bool := false
  /-- A jump with offset adds VX for a target XNN; otherwise it adds V0. -/
  jumpsAddVx : Bool := false
  /-- OR, AND and XOR clear the flag register. -/
  logicClearsFlag : Bool := true
  /-- A draw waits for the next tick. -/
  drawsAwaitTick : Bool := false
  /-- Sprites wrap around the edges; otherwise they are clipped. -/
  spritesWrap : Bool := true
deriving DecidableEq, Repr

namespace Dialect

/-! ## Flags by name -/

inductive Flag where
  | shiftsReadVy | transfersMoveIndex | jumpsAddVx | logicClearsFlag | drawsAwaitTick | spritesWrap
deriving DecidableEq, Repr

def Flag.name : Flag → String
  | .shiftsReadVy => "shift_uses_vy"
  | .transfersMoveIndex => "load_store_increments_i"
  | .jumpsAddVx => "jump_uses_vx"
  | .logicClearsFlag => "logic_resets_vf"
  | .drawsAwaitTick => "display_wait"
  | .spritesWrap => "wrap_sprites"

/-- In the order in which a dialect is written. -/
def Flag.all : List Flag :=
  [.shiftsReadVy, .transfersMoveIndex, .jumpsAddVx, .logicClearsFlag, .drawsAwaitTick, .spritesWrap]

def Flag.ofName? (name : String) : Option Flag := Flag.all.find? (·.name == name)

def get (d : Dialect) : Flag → Bool
  | .shiftsReadVy => d.shiftsReadVy
  | .transfersMoveIndex => d.transfersMoveIndex
  | .jumpsAddVx => d.jumpsAddVx
  | .logicClearsFlag => d.logicClearsFlag
  | .drawsAwaitTick => d.drawsAwaitTick
  | .spritesWrap => d.spritesWrap

def set (d : Dialect) (flag : Flag) (on : Bool) : Dialect :=
  match flag with
  | .shiftsReadVy => { d with shiftsReadVy := on }
  | .transfersMoveIndex => { d with transfersMoveIndex := on }
  | .jumpsAddVx => { d with jumpsAddVx := on }
  | .logicClearsFlag => { d with logicClearsFlag := on }
  | .drawsAwaitTick => { d with drawsAwaitTick := on }
  | .spritesWrap => { d with spritesWrap := on }

theorem get_set (d : Dialect) (f g : Flag) (on : Bool) :
    (d.set f on).get g = if f = g then on else d.get g := by
  cases f <;> cases g <;> rfl

/-! ## Presets -/

def modern : Dialect := {}

def cosmac : Dialect :=
  { shiftsReadVy := true, transfersMoveIndex := true, drawsAwaitTick := true, spritesWrap := false }

def schip : Dialect := { jumpsAddVx := true, logicClearsFlag := false, spritesWrap := false }

def presets : List (String × Dialect) := [("modern", modern), ("cosmac", cosmac), ("schip", schip)]

def preset? (name : String) : Option Dialect := presets.lookup name

/-- A name that no preset has. -/
structure UnknownPreset where
  name : String
deriving DecidableEq, Repr

def UnknownPreset.message (e : UnknownPreset) : String :=
  "Unknown quirk preset '" ++ e.name ++ "'. Available: ['modern', 'cosmac', 'schip']"

def preset (name : String) : Except UnknownPreset Dialect :=
  match preset? name with
  | some d => .ok d
  | none => .error ⟨name⟩

/-! ## Text -/

/-- The flags with their values, in the order of `Flag.all`. -/
def text (d : Dialect) : String :=
  let field (f : Flag) := f.name ++ "=" ++ (if d.get f then "True" else "False")
  "Quirks(" ++ ", ".intercalate (Flag.all.map field) ++ ")"

end Dialect

end ChipEight
