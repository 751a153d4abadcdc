import ChipEight.Settings.Reference
import ChipEight.Yaml

/-!
# Overrides

Single settings given as texts: the keys that lead to a setting, an equals sign, and a YAML value. Several of
them make one mapping.
-/

namespace ChipEight.Settings

/-- Why settings cannot be loaded. -/
inductive LoadError where
  | document (e : Yaml.Error)
  /-- A document holds a single value where a mapping is expected. -/
  | singleValue
  /-- A text inside a document holds a single value where a mapping is expected. -/
  | singleValueInText
  | unknownSetting
  /-- A value of the wrong kind. -/
  | invalidValue
  /-- A list where a mapping is expected, or a mapping in place of a list. -/
  | wrongContainer
  /-- A key that is no text. -/
  | invalidKey
  /-- A placeholder has not been replaced. -/
  | missingValue
  /-- An override without keys. -/
  | noPath
  /-- An override that is no text. -/
  | noText
  | reference (e : ReferenceError)
deriving DecidableEq, Repr

/-- A text that stands for a value still to be given. -/
def placeholder : String := "???"

def isPlaceholder : Datum → Bool
  | .text s => s = placeholder
  | _ => false

/-! ## Checking data -/

/-- The reference that a text holds, if there is one. -/
def referenceIn (s : String) : Except LoadError (Option Reference) :=
  if hasReference s.toList then
    match readReference? s with
    | some r => .ok (some r)
    | none => .error (.reference .malformed)
  else .ok none

mutual

/-- Keys have to be there and references well formed. -/
def check : Datum → Except LoadError Unit
  | .text s => do
      let _ ← referenceIn s
  | .list items => checkAll items
  | .map entries => checkEntries entries
  | _ => .ok ()

def checkAll : List Datum → Except LoadError Unit
  | [] => .ok ()
  | item :: items => do
      check item
      checkAll items

def checkEntries : List (Datum × Datum) → Except LoadError Unit
  | [] => .ok ()
  | (.null, _) :: _ => .error .invalidKey
  | (_, d) :: rest => do
      check d
      checkEntries rest

end

/-! ## Merging data -/

abbrev Entries := Yaml.Entries

def valueOf? (entries : Entries) (key : Datum) : Option Datum :=
  (entries.find? fun e => Yaml.sameKey e.1 key).map (·.2)

/-- Merges the second mapping into the first, key by key. Lists are replaced as a whole, and a placeholder
replaces nothing. -/
def mergeEntries (old : Entries) : Entries → Except LoadError Entries
  | [] => .ok old
  | (k, .map inner) :: rest => do
      match valueOf? old k with
      | some (.map before) =>
          let merged ← mergeEntries before inner
          mergeEntries (Yaml.setKey k (.map merged) old) rest
      | some (.list _) => throw .wrongContainer
      | _ => mergeEntries (Yaml.setKey k (.map inner) old) rest
  | (k, .list items) :: rest => do
      match valueOf? old k with
      | some (.map _) => throw .wrongContainer
      | _ => mergeEntries (Yaml.setKey k (.list items) old) rest
  | (k, d) :: rest =>
      if isPlaceholder d && (valueOf? old k).isSome then mergeEntries old rest
      else mergeEntries (Yaml.setKey k d old) rest

/-! ## Single overrides -/

structure Override where
  path : List String
  value : Datum

/-- Keys behind the first one, with a dot before them or in square brackets. What is neither is passed
over. -/
def furtherKeys : Nat → List Char → List String
  | 0, _ => []
  | _ + 1, [] => []
  | n + 1, '.' :: cs =>
      let key := cs.takeWhile fun c => c ≠ '.' && c ≠ '['
      String.ofList key :: furtherKeys n (cs.drop key.length)
  | n + 1, '[' :: cs =>
      let key := cs.takeWhile fun c => c ≠ ']' && c ≠ '\n'
      match cs.drop key.length with
      | ']' :: rest => String.ofList key :: furtherKeys n rest
      | _ => furtherKeys n cs
  | n + 1, _ :: cs => furtherKeys n cs

/-- The keys of a path. Dots before the first key count as empty keys, and so does a missing first key
unless a bracket follows. -/
def pathOf (cs : List Char) : List String :=
  let dots := (cs.takeWhile (· = '.')).length
  let head := (cs.drop dots).takeWhile fun c => c ≠ '.' && c ≠ '['
  let rest := cs.drop (dots + head.length)
  let first := if head.isEmpty && rest.head? = some '[' then [] else [String.ofList head]
  List.replicate dots "" ++ first ++ furtherKeys (rest.length + 1) rest

/-- Without an equals sign the value is null. -/
def Override.ofText (s : String) : Except LoadError Override := do
  let key := s.toList.takeWhile (· ≠ '=')
  match s.toList.drop key.length with
  | [] => return { path := pathOf key, value := .null }
  | _ :: text =>
      let value ← (Yaml.read (String.ofList text)).mapError .document
      return { path := pathOf key, value }

/-! ## All overrides -/

/-- A mapping is merged into one that is already there; everything else replaces what is there. -/
def putLast (key : String) (d : Datum) (entries : Entries) : Except LoadError Entries := do
  match d, valueOf? entries (.text key) with
  | .map new, some (.map old) => return Yaml.setKey (.text key) (.map (← mergeEntries old new)) entries
  | .map _, some (.list _) => throw .wrongContainer
  | .list _, some (.map _) => throw .wrongContainer
  | _, _ => return Yaml.setKey (.text key) d entries

/-- Single values on the way are replaced by mappings. -/
def put (d : Datum) : (path : List String) → Entries → Except LoadError Entries
  | [], _ => .error .noPath
  | [key], entries => putLast key d entries
  | key :: path, entries => do
      match valueOf? entries (.text key) with
      | some (.map inner) => return Yaml.setKey (.text key) (.map (← put d path inner)) entries
      | some (.list _) => throw .wrongContainer
      | some (.text s) =>
          if s = placeholder then throw .missingValue
          return Yaml.setKey (.text key) (.map (← put d path [])) entries
      | _ => return Yaml.setKey (.text key) (.map (← put d path [])) entries

def Override.applyTo (o : Override) (entries : Entries) : Except LoadError Entries := do
  check o.value
  put o.value o.path entries

/-- The mapping that overrides make. Each is read only after those before it have been applied. -/
def Override.gatherTexts (texts : List Datum) : Except LoadError Entries :=
  texts.foldlM (fun entries d => match d with
    | .text s => do (← Override.ofText s).applyTo entries
    | _ => .error .noText) []

end ChipEight.Settings
