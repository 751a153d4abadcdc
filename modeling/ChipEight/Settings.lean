import ChipEight.Dialect.Values
import ChipEight.Text.Quoted

/-!
# Settings

What a machine is made from: where programs start, the seed of its random numbers, the length of its
history, and a preset dialect with single flags changed.
-/

namespace ChipEight

structure Settings where
  entry : Int := 0x200
  seed : Int := 0
  /-- No length stands for a history without end. -/
  traceLength : Option Int := some 100
  preset : String := "modern"
  flags : List (String × Datum) := []

namespace Settings

inductive DialectError where
  /-- In order and without repetition. -/
  | unknownFlags (names : List String)
  | unknownPreset (e : Dialect.UnknownPreset)
deriving DecidableEq, Repr

def sortNames (names : List String) : List String := names.mergeSort fun a b => a ≤ b

def DialectError.message : DialectError → String
  | .unknownFlags names =>
      "Unknown quirk flags " ++ Text.quotedList names ++ ". Available: "
        ++ Text.quotedList (sortNames (Dialect.Flag.all.map (·.name)))
  | .unknownPreset e => e.message

/-- The names under which flags are set that are none. -/
def unknownFlags (s : Settings) : List String :=
  sortNames ((s.flags.map (·.1)).filter fun name => (Dialect.Flag.ofName? name).isNone).eraseDups

/-- The flags of the preset, changed as the settings say. The names of flags are looked at before the
preset. -/
def dialectValues (s : Settings) : Except DialectError Dialect.Values :=
  match s.unknownFlags with
  | [] => do
      let d ← (Dialect.preset s.preset).mapError .unknownPreset
      ((Dialect.Values.ofDialect d).setAll s.flags).mapError fun name => .unknownFlags [name]
  | names => .error (.unknownFlags names)

def dialect (s : Settings) : Except DialectError Dialect := s.dialectValues.map (·.toDialect)

/-! ## Settings from plain fields -/

inductive FieldError where
  | unknownField (name : String)
  | wrongType (name : String)
deriving DecidableEq, Repr

def integerField (name : String) : Datum → Except FieldError Int
  | .int z => .ok z
  | _ => .error (.wrongType name)

/-- A preset may be given as any single value and is looked up by its text. -/
def presetField (name : String) (d : Datum) : Except FieldError String :=
  match d.scalarText? with
  | some s => .ok s
  | none => .error (.wrongType name)

def flagsField (name : String) : Datum → Except FieldError (List (String × Datum))
  | .map entries => entries.mapM fun (k, v) => match k with
      | .text flag => .ok (flag, v)
      | _ => .error (.wrongType name)
  | _ => .error (.wrongType name)

def setField (s : Settings) (name : String) (d : Datum) : Except FieldError Settings :=
  match name, d with
  | "entry_point", _ => (integerField name d).map fun z => { s with entry := z }
  | "seed", _ => (integerField name d).map fun z => { s with seed := z }
  | "trace_length", .null => .ok { s with traceLength := none }
  | "trace_length", _ => (integerField name d).map fun z => { s with traceLength := some z }
  | "preset", _ => (presetField name d).map fun p => { s with preset := p }
  | "quirks", _ => (flagsField name d).map fun fs => { s with flags := fs }
  | _, _ => .error (.unknownField name)

/-- Fields that are not given keep their defaults. -/
def ofFields (fields : List (String × Datum)) : Except FieldError Settings :=
  fields.foldlM (fun s (name, d) => s.setField name d) {}

end Settings

end ChipEight
