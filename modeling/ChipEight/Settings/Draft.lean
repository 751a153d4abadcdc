import ChipEight.Settings
import ChipEight.Settings.Override

/-!
# Drafts

Settings into which others are merged before references are resolved. A value is taken over only if it has
the kind of the setting or can be read as such.
-/

namespace ChipEight.Settings

/-! ## Reading values -/

def integerOf? : Datum → Option Int
  | .int z => some z
  | .text s => Text.integer? s
  | _ => none

/-- Any single value, but not null. -/
def nameOf? : Datum → Option String
  | .null => none
  | d => d.scalarText?

def truthOfText? (s : String) : Option Bool :=
  match Text.integer? s with
  | some z => some (z ≠ 0)
  | none =>
      let word := s.toLower
      if ["yes", "y", "on", "true"].contains word then some true
      else if ["no", "n", "off", "false"].contains word then some false
      else none

def truthOf? : Datum → Option Bool
  | .bool b => some b
  | .int z => some (z ≠ 0)
  | .text s => truthOfText? s
  | _ => none

def flagOf? (d : Datum) : Option Datum := (truthOf? d).map .bool

/-! ## Values and references -/

inductive Held (α : Type) where
  | value (a : α)
  | reference (r : Reference)
  /-- A placeholder. -/
  | missing

/-- The value or the reference that a datum gives. -/
def Held.ofDatum {α : Type} (read : Datum → Option α) (d : Datum) : Except LoadError (Held α) := do
  if let .text s := d then
    if let some r ← referenceIn s then return .reference r
  match read d with
  | some a => return .value a
  | none => throw .invalidValue

/-- A placeholder leaves the setting as it is. -/
def Held.assign {α : Type} (old : Held α) (read : Datum → Option α) (d : Datum) : Except LoadError (Held α) :=
  if isPlaceholder d then .ok old else Held.ofDatum read d

def Held.resolve {α : Type} (held : Held α) (read : Datum → Option α)
    (valueOf : Reference → Except ReferenceError Datum) : Except ReferenceError α :=
  match held with
  | .value a => .ok a
  | .missing => .error .missing
  | .reference r => do
      match read (← valueOf r) with
      | some a => return a
      | none => throw .wrongType

/-! ## Flags -/

abbrev Flags := List (String × Held Datum)

def Flags.set (name : String) (flag : Held Datum) : Flags → Flags
  | [] => [(name, flag)]
  | (n, f) :: rest => if n = name then (n, flag) :: rest else (n, f) :: Flags.set name flag rest

/-- A new flag may also hold a list or a mapping. -/
def newFlag (d : Datum) : Except LoadError (Held Datum) :=
  match d with
  | .list _ => .ok (.value d)
  | .map _ => .ok (.value d)
  | _ => if isPlaceholder d then .ok .missing else Held.ofDatum flagOf? d

def changedFlag (old : Held Datum) (d : Datum) : Except LoadError (Held Datum) :=
  match old, d with
  | .value (.map before), .map new => (mergeEntries before new).map fun es => .value (.map es)
  | .value (.list _), .list _ => .ok (.value d)
  | .value (.map _), .list _ => .error .wrongContainer
  | .value (.list _), .map _ => .error .wrongContainer
  | _, _ => old.assign flagOf? d

def Flags.merge (old : Flags) (entries : Entries) : Except LoadError Flags :=
  entries.foldlM (fun flags (k, d) => match k with
    | .text name => do
        let flag ← match flags.find? (·.1 = name) with
          | some (_, before) => changedFlag before d
          | none => newFlag d
        return flags.set name flag
    | _ => throw .invalidKey) old

/-- Flags are given as a mapping. -/
def assignFlags (old : Held Flags) (d : Datum) : Except LoadError (Held Flags) :=
  match d, old with
  | .map entries, .value flags => (flags.merge entries).map .value
  | .map entries, _ => (Flags.merge [] entries).map .value
  | .list _, _ => .error .wrongContainer
  | _, _ => old.assign (fun _ => none) d

/-! ## Drafts -/

structure Draft where
  entry : Held Int
  seed : Held Int
  traceLength : Held Int
  preset : Held String
  flags : Held Flags

namespace Draft

/-- What settings are before anything is merged into them. -/
def initial : Draft :=
  let s : Settings := {}
  { entry := .value s.entry
    seed := .value s.seed
    traceLength := .value (s.traceLength.getD 0)
    preset := .value s.preset
    flags := .value [] }

/-- The names of the settings and where each is kept. -/
def assign (s : Draft) (name : String) (d : Datum) : Except LoadError Draft :=
  match name with
  | "entry_point" => (s.entry.assign integerOf? d).map fun h => { s with entry := h }
  | "seed" => (s.seed.assign integerOf? d).map fun h => { s with seed := h }
  | "trace_length" => (s.traceLength.assign integerOf? d).map fun h => { s with traceLength := h }
  | "preset" => (s.preset.assign nameOf? d).map fun h => { s with preset := h }
  | "quirks" => (assignFlags s.flags d).map fun h => { s with flags := h }
  | _ => .error .unknownSetting

/-- Later values win; the first one that does not fit ends the merge. -/
def merge (s : Draft) (entries : Entries) : Except LoadError Draft :=
  entries.foldlM (fun s (k, d) => match k with
    | .text name => s.assign name d
    | _ => .error .unknownSetting) s

/-! ## Resolving references -/

def flagNamed? (s : Draft) (name : String) : Option (Held Datum) :=
  match s.flags with
  | .value flags => (flags.find? (·.1 = name)).map (·.2)
  | _ => none

/-- The value that keys lead to, by way of no more references than given. -/
def valueAt (s : Draft) : Nat → List String → Except ReferenceError Datum
  | 0, _ => .error .unresolvable
  | n + 1, path =>
    let top (r : Reference) := r.value [] (s.valueAt n)
    let inner (r : Reference) := r.value ["quirks"] (s.valueAt n)
    match path with
    | ["entry_point"] => (s.entry.resolve integerOf? top).map .int
    | ["seed"] => (s.seed.resolve integerOf? top).map .int
    | ["trace_length"] => (s.traceLength.resolve integerOf? top).map .int
    | ["preset"] => (s.preset.resolve nameOf? top).map .text
    | ["quirks"] => (s.flags.resolve (fun _ => none) top).map fun _ => .map []
    | ["quirks", name] =>
        match s.flagNamed? name with
        | some flag => flag.resolve flagOf? inner
        | none => .error .unknownName
    | name :: _ :: _ =>
        if ["entry_point", "seed", "trace_length", "preset"].contains name then .error .unresolvable
        else .error .unknownName
    | _ => .error .unknownName

/-- As many references as there are values lead to each of them at most once. -/
def depth (s : Draft) : Nat :=
  match s.flags with
  | .value flags => flags.length + 6
  | _ => 6

def resolveFlag (s : Draft) (name : String) (flag : Held Datum) : Except LoadError (String × Datum) :=
  match flag with
  | .missing => .error .missingValue
  | _ => ((flag.resolve flagOf? fun r => r.value ["quirks"] (s.valueAt s.depth)).mapError .reference).map (name, ·)

/-- The finished settings. -/
def resolve (s : Draft) : Except LoadError Settings := do
  let valueOf (r : Reference) := r.value [] (s.valueAt s.depth)
  let entry ← (s.entry.resolve integerOf? valueOf).mapError .reference
  let seed ← (s.seed.resolve integerOf? valueOf).mapError .reference
  let traceLength ← (s.traceLength.resolve integerOf? valueOf).mapError .reference
  let preset ← (s.preset.resolve nameOf? valueOf).mapError .reference
  let flags ← (s.flags.resolve (fun _ => none) valueOf).mapError .reference
  let flags ← flags.mapM fun (name, flag) => s.resolveFlag name flag
  return { entry, seed, traceLength := some traceLength, preset, flags }

end Draft

end ChipEight.Settings
