import ChipEight.Yaml.Tag

/-!
# Nodes

The tree that a document shows, with aliases replaced by what they stand for, and the datum it stands for.
-/

namespace ChipEight.Yaml

inductive Node where
  | scalar (tag : Tag) (text : String)
  | sequence (tag : Tag) (items : List Node)
  | mapping (tag : Tag) (entries : List (Node × Node))
  /-- A node inside itself. -/
  | loop

namespace Node

/-- A node of which nothing is written. -/
def empty : Node := .scalar .null ""

/-! ## Keys -/

def textKey? : Node → Option String
  | .scalar .text s => some s
  | _ => none

def isMergeKey : Node → Bool
  | .scalar .merge _ => true
  | _ => false

/-- The texts among the keys of a mapping. Each may occur only once. -/
def textKeys (entries : List (Node × Node)) : List String := entries.filterMap fun e => e.1.textKey?

def hasRepetition : List String → Bool
  | [] => false
  | name :: names => names.contains name || hasRepetition names

end Node

/-! ## Mappings -/

/-- Equal keys. Truth values count as one and zero. -/
def sameKey : Datum → Datum → Bool
  | .null, .null => true
  | .text s, .text t => s = t
  | .float f, .float g => f == g
  | .float f, d => number d |>.any (f == .ofInt ·)
  | d, .float f => number d |>.any (f == .ofInt ·)
  | d, e => match number d, number e with
    | some y, some z => y = z
    | _, _ => false
where
  number : Datum → Option Int
    | .bool b => some b.toInt
    | .int z => some z
    | _ => none

abbrev Entries := List (Datum × Datum)

/-- Replaces the value of a key, or adds the key at the end. -/
def setKey (key value : Datum) : Entries → Entries
  | [] => [(key, value)]
  | (k, v) :: rest => if sameKey k key then (k, value) :: rest else (k, v) :: setKey key value rest

/-- Later entries win. -/
def setKeys (entries : Entries) (old : Entries) : Entries := entries.foldl (fun es e => setKey e.1 e.2 es) old

/-- Only single values serve as keys. -/
def isKey : Datum → Bool
  | .list _ => false
  | .map _ => false
  | _ => true

def mapsOf (items : List Datum) : Option (List Entries) :=
  items.mapM fun d => match d with
    | .map entries => some entries
    | _ => none

/-- What the value of a merge key adds: a mapping, or several of which earlier ones win. -/
def mergedEntries : Datum → Except Error Entries
  | .map entries => .ok entries
  | .list items =>
      match mapsOf items with
      | some maps => .ok maps.reverse.flatten
      | none => .error .construction
  | _ => .error .construction

/-- The entries of a mapping: what is merged into it first, its own ones over that. -/
structure Gathered where
  merged : Entries := []
  own : Entries := []

def Gathered.entries (g : Gathered) : Entries := setKeys g.own (setKeys g.merged [])

/-! ## Data -/

namespace Node

/-- An equals sign is a text where it is a key. -/
def keyTag : Tag → Tag
  | .equals => .text
  | tag => tag

mutual

/-- The datum that a node stands for. -/
def datum : Node → Except Error Datum
  | .scalar tag s => tag.datum s
  | .sequence tag items => do
      if tag ≠ .list then throw .construction
      return .list (← data items)
  | .mapping tag entries => do
      if tag ≠ .map || hasRepetition (textKeys entries) then throw .construction
      return .map (← gather entries).entries
  | .loop => .error .recursion

def data : List Node → Except Error (List Datum)
  | [] => .ok []
  | item :: items => do
      let d ← item.datum
      return d :: (← data items)

def keyDatum : Node → Except Error Datum
  | .scalar tag s => (keyTag tag).datum s
  | node => node.datum

def gather : List (Node × Node) → Except Error Gathered
  | [] => .ok {}
  | (key, value) :: rest => do
      if key.isMergeKey then
        let d ← value.datum
        let es ← mergedEntries d
        let g ← gather rest
        return { g with merged := es ++ g.merged }
      else
        let k ← key.keyDatum
        if !isKey k then throw .construction
        let v ← value.datum
        let g ← gather rest
        return { g with own := (k, v) :: g.own }

end

end Node

end ChipEight.Yaml
