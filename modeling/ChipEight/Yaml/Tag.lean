import ChipEight.Datum
import ChipEight.Decimal.Read
import ChipEight.Yaml.Token

/-!
# Tags

What a scalar stands for. A plain scalar without a tag is tagged by its form, every other one is a text.
-/

namespace ChipEight.Yaml

inductive Tag where
  | null
  | bool
  | int
  | float
  | text
  | list
  | map
  /-- Marks a key whose value is merged into its mapping. -/
  | merge
  /-- An equals sign. -/
  | equals
  | other (uri : String)
deriving DecidableEq, Repr

/-- What the tags of the common types begin with. -/
def commonTags : String := "tag:yaml.org,2002:"

def Tag.ofName? : String → Option Tag
  | "null" => some .null
  | "bool" => some .bool
  | "int" => some .int
  | "float" => some .float
  | "str" => some .text
  | "seq" => some .list
  | "map" => some .map
  | "merge" => some .merge
  | "value" => some .equals
  | _ => none

def Tag.ofUri (uri : String) : Tag :=
  if uri.startsWith commonTags then
    (Tag.ofName? (String.ofList (uri.toList.drop commonTags.length))).getD (.other uri)
  else .other uri

/-! ## Forms of plain scalars -/

def isOneOf (words : List String) (cs : List Char) : Bool := words.contains (String.ofList cs)

def nullWords : List String := ["", "~", "null", "Null", "NULL"]

def trueWords : List String := ["yes", "Yes", "YES", "true", "True", "TRUE", "on", "On", "ON"]

def falseWords : List String := ["no", "No", "NO", "false", "False", "FALSE", "off", "Off", "OFF"]

def dropSign : List Char → List Char
  | '+' :: cs => cs
  | '-' :: cs => cs
  | cs => cs

/-- At least one character, and underscores between or behind them. -/
def isDigits (p : Char → Bool) (cs : List Char) : Bool := !cs.isEmpty && cs.all fun c => p c || c = '_'

/-- Decimal digits, the first of which is no underscore. -/
def isDecimal (cs : List Char) : Bool := cs.head?.any Char.isDigit && isDigits Char.isDigit cs

/-- The parts of a number to the base sixty. -/
def isSixtieth (cs : List Char) : Bool :=
  match cs with
  | [d] => d.isDigit
  | [c, d] => '0' ≤ c && c ≤ '5' && d.isDigit
  | _ => false

def splitColons (cs : List Char) : List (List Char) := ((String.ofList cs).splitOn ":").map (·.toList)

def isInteger (cs : List Char) : Bool :=
  match dropSign cs with
  | '0' :: 'b' :: ds => isDigits (fun d => d = '0' || d = '1') ds
  | '0' :: 'x' :: ds => isDigits (fun d => (hexValue? d).isSome) ds
  | '0' :: ds => ds.all fun d => ('0' ≤ d && d ≤ '7') || d = '_'
  | ds =>
      match splitColons ds with
      | first :: further => isDecimal first && further.all isSixtieth
      | [] => false

/-- An exponent behind a number. -/
def isExponent (signed : Bool) (cs : List Char) : Bool :=
  match cs with
  | mark :: sign :: ds =>
      let digits := if sign = '+' || sign = '-' then ds else if signed then [] else sign :: ds
      (mark = 'e' || mark = 'E') && !digits.isEmpty && digits.all Char.isDigit
  | _ => false

/-- Up to the first character that fits, and from it on. -/
def splitAtFirst (p : Char → Bool) (cs : List Char) : List Char × List Char :=
  (cs.takeWhile (!p ·), cs.dropWhile (!p ·))

/-- With a point or an exponent. -/
def isPointed (cs : List Char) : Bool :=
  let (number, exponent) := splitAtFirst (fun c => c = 'e' || c = 'E') cs
  match splitAtFirst (· = '.') number with
  | (whole, '.' :: fraction) =>
      isDecimal whole && fraction.all (fun c => c.isDigit || c = '_')
        && (exponent.isEmpty || isExponent false exponent)
  | (whole, _) => isDecimal whole && isExponent false exponent

/-- Nothing before the point. -/
def isFraction (cs : List Char) : Bool :=
  match cs with
  | '.' :: ds =>
      let (number, exponent) := splitAtFirst (fun c => c = 'e' || c = 'E') ds
      isDecimal number && (exponent.isEmpty || isExponent true exponent)
  | _ => false

/-- Parts to the base sixty, and a fraction. -/
def isSexagesimal (cs : List Char) : Bool :=
  match splitAtFirst (· = '.') cs with
  | (whole, '.' :: fraction) =>
      fraction.all (fun c => c.isDigit || c = '_')
        && match splitColons whole with
          | first :: second :: further => isDecimal first && (second :: further).all isSixtieth
          | _ => false
  | _ => false

def isFloat (cs : List Char) : Bool :=
  let unsigned := dropSign cs
  isPointed unsigned || isFraction cs || isSexagesimal unsigned
    || isOneOf [".inf", ".Inf", ".INF"] unsigned || isOneOf [".nan", ".NaN", ".NAN"] cs

/-- The tag of a plain scalar. -/
def Tag.ofPlain (s : String) : Tag :=
  let cs := s.toList
  if isOneOf nullWords cs then .null
  else if isOneOf trueWords cs || isOneOf falseWords cs then .bool
  else if isInteger cs then .int
  else if isFloat cs then .float
  else if s = "<<" then .merge
  else if s = "=" then .equals
  else .text

/-! ## Values of scalars -/

/-- The sign of a number, and what follows it. -/
def splitSign (cs : List Char) : Bool × List Char := (cs.head? = some '-', dropSign cs)

def baseValue? (base : Nat) (cs : List Char) : Option Nat :=
  if cs.isEmpty then none
  else cs.foldlM (fun n c => (hexValue? c).bind fun d => if d < base then some (base * n + d) else none) 0

def sixtiesValue? (cs : List Char) : Option Int :=
  (splitColons cs).foldlM (fun z part => (Text.integer? (String.ofList part)).map (60 * z + ·)) 0

/-- Written to the base two, eight, ten, sixteen or sixty. -/
def integerValue? (s : String) : Option Int :=
  let (negative, cs) := splitSign (s.toList.filter (· ≠ '_'))
  let size : Option Int := match cs with
    | ['0'] => some 0
    | '0' :: 'b' :: ds => (baseValue? 2 ds).map Int.ofNat
    | '0' :: 'x' :: ds => (baseValue? 16 ds).map Int.ofNat
    | '0' :: ds => (baseValue? 8 ds).map Int.ofNat
    | ds => sixtiesValue? ds
  size.map fun z => if negative then -z else z

def floatValue? (s : String) : Option Float :=
  let (negative, cs) := splitSign ((s.toList.filter (· ≠ '_')).map Char.toLower)
  let size : Option Float := match String.ofList cs with
    | ".inf" => some (1.0 / 0.0)
    | ".nan" => some (0.0 / 0.0)
    | _ => (splitColons cs).foldlM (fun f part => (Decimal.readUnsigned? part).map (60 * f + ·)) 0
  size.map fun f => if negative then -f else f

/-- Truth values are known in any case. -/
def truthValue? (s : String) : Option Bool :=
  let word := s.toLower
  if trueWords.contains word then some true
  else if falseWords.contains word then some false
  else none

/-- What a scalar stands for. -/
def Tag.datum (tag : Tag) (s : String) : Except Error Datum :=
  match tag with
  | .null => .ok .null
  | .text => .ok (.text s)
  | .bool => match truthValue? s with
      | some b => .ok (.bool b)
      | none => .error .truthValue
  | .int => match integerValue? s with
      | some z => .ok (.int z)
      | none => .error .number
  | .float => match floatValue? s with
      | some f => .ok (.float f)
      | none => .error .number
  | .list | .map | .merge | .equals | .other _ => .error .construction

end ChipEight.Yaml
