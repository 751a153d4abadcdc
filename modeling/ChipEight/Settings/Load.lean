import ChipEight.Settings.Draft

/-!
# Loading settings

Defaults, over them a source, and over that single overrides.
-/

namespace ChipEight.Settings

inductive Source where
  | none
  | entries (es : Entries)
  /-- A YAML text. -/
  | document (text : String)

/-! ## Sources -/

/-- A text that stands where a mapping is expected is read once more. One that is only a text is a single key
without a value. -/
def entriesOfText (s : String) : Except LoadError Entries := do
  match ← (Yaml.read s).mapError .document with
  | .map es => check (.map es); return es
  | .null => return []
  | .text key => return [(.text key, .null)]
  | .list items => checkAll items; throw .wrongContainer
  | _ => throw .singleValueInText

def entriesOfDatum : Datum → Except LoadError Entries
  | .map es => do check (.map es); return es
  | .null => .ok []
  | .text s => entriesOfText s
  | .list items => do checkAll items; throw .wrongContainer
  | _ => .error .singleValue

def Source.read : Source → Except LoadError Entries
  | .none => .ok []
  | .entries es => do checkEntries es; return es
  | .document text => do entriesOfDatum (← (Yaml.read text).mapError .document)

/-! ## Settings -/

def Draft.ofSource (source : Source) : Except LoadError Draft := do Draft.initial.merge (← source.read)

/-- The overrides, given as texts, are gathered before they are merged. -/
def load (source : Source) (overrides : List Datum) : Except LoadError Settings := do
  let s ← Draft.ofSource source
  let s ← s.merge (← Override.gatherTexts overrides)
  s.resolve

end ChipEight.Settings
