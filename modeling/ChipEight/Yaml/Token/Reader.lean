import ChipEight.Yaml.Token

/-!
# Reading tokens

A key is known as such only at the colon behind it. Until then its place among the tokens is remembered, and
the tokens that belong before it are inserted there afterwards.
-/

namespace ChipEight.Yaml

/-- A token that may turn out to be a key. -/
structure PendingKey where
  /-- In block context, where a line begins with it, nothing but a key will do. -/
  required : Bool
  /-- The number of tokens before it. -/
  place : Nat
  index : Nat
  line : Nat
  column : Nat

structure Reader where
  cursor : Cursor
  /-- Newest first. -/
  tokens : List Token := []
  /-- The column of the innermost block collection. -/
  indent : Int := -1
  /-- The columns of those around it. -/
  outerIndents : List Int := []
  keyAllowed : Bool := true
  pending : Option PendingKey := none
  /-- One for each flow collection that is open. -/
  outerPending : List (Option PendingKey) := []

namespace Reader

def inFlow (s : Reader) : Bool := !s.outerPending.isEmpty

def column (s : Reader) : Int := s.cursor.column

def emit (s : Reader) (t : Token) : Reader := { s with tokens := t :: s.tokens }

/-- Inserts a token after the first `place` ones. -/
def emitAt (s : Reader) (place : Nat) (t : Token) : Reader :=
  { s with tokens := s.tokens.insertIdx (s.tokens.length - place) t }

/-! ## Indentation -/

/-- Ends the block collections to the right of a column. -/
def closeBlocks (column : Int) : List Int → Reader → Reader
  | outers, s =>
    if s.indent ≤ column then { s with outerIndents := outers }
    else match outers with
      | [] => { s.emit .blockEnd with indent := -1, outerIndents := [] }
      | outer :: outers => closeBlocks column outers { s.emit .blockEnd with indent := outer }

/-- Indentation means nothing inside flow collections. -/
def unroll (s : Reader) (column : Int) : Reader :=
  if s.inFlow then s else closeBlocks column s.outerIndents s

/-- Begins a block collection at a column unless one is open there. -/
def roll (s : Reader) (column : Nat) (place : Nat) (t : Token) : Reader :=
  if s.inFlow || (column : Int) ≤ s.indent then s
  else { s.emitAt place t with indent := column, outerIndents := s.indent :: s.outerIndents }

def rollHere (s : Reader) (t : Token) : Reader := s.roll s.cursor.column s.tokens.length t

/-! ## Pending keys -/

/-- A key lies within one line and is not longer than 1024 characters. -/
def isStale (s : Reader) (k : PendingKey) : Bool := k.line < s.cursor.line || k.index + 1024 < s.cursor.index

def dropStaleKey (s : Reader) (k : Option PendingKey) : Except Error (Option PendingKey) :=
  match k with
  | some k => if s.isStale k then (if k.required then .error .token else .ok none) else .ok (some k)
  | none => .ok none

def dropStale (s : Reader) : Except Error Reader := do
  let outerPending ← s.outerPending.mapM s.dropStaleKey
  let pending ← s.dropStaleKey s.pending
  return { s with pending, outerPending }

/-- Gives up the pending key. -/
def dropPending (s : Reader) : Except Error Reader :=
  match s.pending with
  | some k => if k.required then .error .token else .ok { s with pending := none }
  | none => .ok s

/-- The next token may be a key. -/
def expectKey (s : Reader) : Except Error Reader :=
  if s.keyAllowed then do
    let t ← s.dropPending
    let c := s.cursor
    let key : PendingKey :=
      { required := !s.inFlow && s.indent = c.column
        place := s.tokens.length
        index := c.index
        line := c.line
        column := c.column }
    return { t with pending := some key }
  else .ok s

/-! ## Between tokens -/

/-- Passes blanks, comments and line breaks. A tab may not stand where a key could begin. -/
def skipSpace : Nat → Reader → Reader
  | 0, s => s
  | n + 1, s =>
    let c := if s.cursor.column = 0 && s.cursor.at? '\ufeff' then s.cursor.skip else s.cursor
    let tabs := s.inFlow || !s.keyAllowed
    let c := (c.skipWhile fun ch => ch = ' ' || (tabs && ch = '\t')).skipComment
    if c.atBreak then
      skipSpace n { s with cursor := c.skipBreak, keyAllowed := s.keyAllowed || !s.inFlow }
    else { s with cursor := c }

/-! ## Tokens -/

/-- Marks of one character. -/
def mark (s : Reader) (t : Token) : Reader := { s.emit t with cursor := s.cursor.skip }

def openFlow (s : Reader) (t : Token) : Except Error Reader := do
  let s ← s.expectKey
  return { s.mark t with keyAllowed := true, pending := none, outerPending := s.pending :: s.outerPending }

def closeFlow (s : Reader) (t : Token) : Except Error Reader := do
  let s ← s.dropPending
  let s := { s.mark t with keyAllowed := false }
  match s.outerPending with
  | k :: ks => return { s with pending := k, outerPending := ks }
  | [] => return s

def flowEntry (s : Reader) : Except Error Reader := do
  let s ← s.dropPending
  return { s.mark .flowEntry with keyAllowed := true }

/-- In block context entries and keys begin only where a key is allowed. -/
def beginEntry (s : Reader) (collection : Token) : Except Error Reader :=
  if s.inFlow then .ok s else if s.keyAllowed then .ok (s.rollHere collection) else .error .token

def blockEntry (s : Reader) : Except Error Reader := do
  let s ← (← s.beginEntry .blockSequence).dropPending
  return { s.mark .blockEntry with keyAllowed := true }

def explicitKey (s : Reader) : Except Error Reader := do
  let s ← (← s.beginEntry .blockMapping).dropPending
  return { s.mark .key with keyAllowed := !s.inFlow }

/-- A colon turns the pending token into a key. -/
def valueMark (s : Reader) : Except Error Reader := do
  match s.pending with
  | some k =>
      let s := (s.emitAt k.place .key).roll k.column k.place .blockMapping
      return { s.mark .value with pending := none, keyAllowed := false }
  | none =>
      let s ← s.beginEntry .blockMapping
      return { s.mark .value with keyAllowed := !s.inFlow }

/-- A token that may be a key, read at the cursor. -/
def content (s : Reader) (read : Cursor → Except Error (Cursor × Token)) : Except Error Reader := do
  let s ← s.expectKey
  let (c, t) ← read s.cursor
  return { s.emit t with cursor := c, keyAllowed := false }

def quoted (s : Reader) (quote : Char) : Except Error Reader :=
  s.content fun c => do
    let (c, text) ← readQuoted quote c.fuel c.skip []
    return (c, .scalar false (String.ofList text.reverse))

def plain (s : Reader) : Except Error Reader := do
  let s ← s.expectKey
  let (c, text, gap) ← readPlain s.inFlow (s.indent + 1) s.cursor.fuel s.cursor [] {}
  return { s.emit (.scalar true (String.ofList text.reverse)) with cursor := c, keyAllowed := gap.broken }

def block (s : Reader) (literal : Bool) : Except Error Reader := do
  let s ← s.dropPending
  let (c, text) ← readBlock literal s.indent s.cursor.skip
  return { s.emit (.scalar false (String.ofList text.reverse)) with cursor := c, keyAllowed := true }

/-- Documents are separated by marks at the start of a line. -/
def documentMark (s : Reader) (t : Token) : Except Error Reader := do
  let s ← (s.unroll (-1)).dropPending
  return { s.emit t with cursor := s.cursor.skip 3, keyAllowed := false }

def directive (s : Reader) : Except Error Reader := do
  let s ← (s.unroll (-1)).dropPending
  let (c, t) ← readDirective s.cursor
  return { s.emit t with cursor := c, keyAllowed := false }

/-- Marks that no plain scalar begins with. -/
def isIndicator (c : Char) : Bool :=
  ['-', '?', ':', ',', '[', ']', '\x7b', '\x7d', '#', '&', '*', '!', '|', '>', '\x27', '\x22', '%', '@',
    '\x60'].contains c

/-- Some of them do begin one if no blank follows. -/
def startsPlain (s : Reader) (ch : Char) : Bool :=
  !(isIndicator ch || isBlank ch || isBreak ch)
    || (ch = '-' && !(s.cursor.peek 1).any isBlank)
    || (!s.inFlow && (ch = '?' || ch = ':') && !endsWord (s.cursor.peek 1))

/-- The token that begins with the given character. -/
def fetch (s : Reader) (ch : Char) : Except Error Reader :=
  let c := s.cursor
  let ended := endsWord (c.peek 1)
  if c.column = 0 && ch = '%' then s.directive
  else if c.atMarker '-' then s.documentMark .documentStart
  else if c.atMarker '.' then s.documentMark .documentEnd
  else match ch with
    | '[' => s.openFlow .flowSequence
    | '\x7b' => s.openFlow .flowMapping
    | ']' => s.closeFlow .flowSequenceEnd
    | '\x7d' => s.closeFlow .flowMappingEnd
    | ',' => s.flowEntry
    | '*' => s.content fun c => (readName c).map fun (c, name) => (c, .reference name)
    | '&' => s.content fun c => (readName c).map fun (c, name) => (c, .anchor name)
    | '!' => s.content (readTag s.inFlow)
    | '\x27' => s.quoted ch
    | '\x22' => s.quoted ch
    | _ =>
      if ch = '-' && ended then s.blockEntry
      else if ch = '?' && (s.inFlow || ended) then s.explicitKey
      else if ch = ':' && (s.inFlow || ended) then s.valueMark
      else if ch = '|' && !s.inFlow then s.block true
      else if ch = '>' && !s.inFlow then s.block false
      else if s.startsPlain ch then s.plain
      else .error .token

/-! ## The whole text -/

/-- Tokens from a pending key on are held back. -/
def settled (s : Reader) : List Token :=
  let places := (s.pending :: s.outerPending).filterMap fun k => k.map (·.place)
  s.tokens.reverse.take (places.foldl min s.tokens.length)

def fail (s : Reader) (e : Error) : TokenList := { tokens := s.settled, error := some e }

/-- The end of the text ends all block collections. -/
def finish (s : Reader) : Except Error Reader := (s.unroll (-1)).dropPending

/-- Up to the next token, and past the ends of the block collections before it. -/
def advance (s : Reader) : Except Error Reader := do
  let s ← (skipSpace s.cursor.fuel s).dropStale
  return s.unroll s.column

def run : Nat → Reader → TokenList
  | 0, s => { tokens := s.tokens.reverse }
  | n + 1, s =>
    match s.advance with
    | .error e => s.fail e
    | .ok t =>
      match t.cursor.peek with
      | none =>
          match t.finish with
          | .ok t => { tokens := t.tokens.reverse }
          | .error e => t.fail e
      | some ch =>
          match t.fetch ch with
          | .ok t => run n t
          | .error e => t.fail e

end Reader

/-- All tokens of a text. -/
def TokenList.ofText (text : List Char) : TokenList :=
  let c : Cursor := { rest := text }
  Reader.run c.fuel { cursor := c }

end ChipEight.Yaml
