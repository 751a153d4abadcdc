import ChipEight.Datum
import ChipEight.Dialect

/-!
# Flags as they are given

A host or a settings file sets flags by name and to any datum. What a flag means is whether its datum
counts as true.
-/

namespace ChipEight.Dialect

/-- A datum for each flag. -/
structure Values where
  get : Flag → Datum

namespace Values

def ofDialect (d : Dialect) : Values := ⟨fun f => .bool (d.get f)⟩

def toDialect (v : Values) : Dialect :=
  Flag.all.foldl (fun d f => d.set f (v.get f).isTrue) {}

def set (v : Values) (flag : Flag) (value : Datum) : Values :=
  ⟨fun f => if f = flag then value else v.get f⟩

/-- Later entries win; the first name that is no flag is given back. -/
def setAll (v : Values) : List (String × Datum) → Except String Values
  | [] => .ok v
  | (name, value) :: rest =>
      match Flag.ofName? name with
      | some f => (v.set f value).setAll rest
      | none => .error name

end Values

end ChipEight.Dialect
