import ChipEight.Yaml.Cursor

/-!
# Texts of scalars

A scalar is written plain, in quotes or as a block of lines. Line breaks inside it are folded: a single
one becomes a space, and of several the first is dropped.
-/

namespace ChipEight.Yaml

/-! ## Blanks between words -/

/-- Blanks and line breaks that have been passed and belong to the text only if more of it follows. -/
structure Gap where
  blanks : List Char := []
  /-- A line was begun. -/
  broken : Bool := false
  /-- The first line break, unless it was escaped. -/
  first : Option Char := none
  /-- The further line breaks. -/
  further : List Char := []

def Gap.text (g : Gap) : List Char :=
  if g.broken then
    match g.first with
    | some '\n' => if g.further.isEmpty then [' '] else g.further
    | some ch => ch :: g.further
    | none => g.further
  else g.blanks

/-- Passes blanks and line breaks. Where an indentation is given, no tab may stand in it. -/
def Gap.read (indent : Int) : Nat → Cursor → Gap → Except Error (Cursor × Gap)
  | 0, c, g => .ok (c, g)
  | n + 1, c, g =>
    match c.peek with
    | none => .ok (c, g)
    | some ch =>
      if isBlank ch then
        if g.broken && ch = '\t' && c.column < indent then .error .token
        else read indent n c.skip (if g.broken then g else { g with blanks := g.blanks ++ [ch] })
      else if isBreak ch then
        let g := if g.broken then { g with further := g.further ++ [c.breakChar] }
          else { broken := true, first := some c.breakChar }
        read indent n c.skipBreak g
      else .ok (c, g)

/-! ## Plain scalars -/

/-- Brackets and commas end a plain scalar inside a flow collection. -/
def isFlowMark (c : Char) : Bool := c = ',' || c = '[' || c = ']' || c = '{' || c = '}'

/-- The text comes last character first; the gap behind it tells whether a new line was begun. -/
def readPlain (flow : Bool) (indent : Int) : Nat → Cursor → List Char → Gap →
    Except Error (Cursor × List Char × Gap)
  | 0, c, text, g => .ok (c, text, g)
  | n + 1, c, text, g =>
    match c.peek with
    | none => .ok (c, text, g)
    | some ch =>
      if isBlank ch || isBreak ch then do
        let (c, g) ← Gap.read indent c.fuel c {}
        if (!flow && c.column < indent) || c.atDocumentMarker || c.at? '#' then return (c, text, g)
        else readPlain flow indent n c text g
      else if flow && ch = ':' && (c.peek 1).any (fun d => isFlowMark d || d = '?') then .error .token
      else if (ch = ':' && endsWord (c.peek 1)) || (flow && isFlowMark ch) then .ok (c, text, g)
      else readPlain flow indent n c.skip (ch :: (g.text.reverse ++ text)) {}

/-! ## Quoted scalars -/

/-- Escapes of one letter. -/
def simpleEscape? : Char → Option Char
  | '0' => some '\x00'
  | 'a' => some '\x07'
  | 'b' => some '\x08'
  | 't' => some '\t'
  | '\t' => some '\t'
  | 'n' => some '\n'
  | 'v' => some '\x0b'
  | 'f' => some '\x0c'
  | 'r' => some '\r'
  | 'e' => some '\x1b'
  | ' ' => some ' '
  | '\x22' => some '\x22'
  | '/' => some '/'
  | '\\' => some '\\'
  | 'N' => some '\u0085'
  | '_' => some '\u00a0'
  | 'L' => some '\u2028'
  | 'P' => some '\u2029'
  | _ => none

/-- The number of hexadecimal digits behind a letter. -/
def escapeLength? : Char → Option Nat
  | 'x' => some 2
  | 'u' => some 4
  | 'U' => some 8
  | _ => none

def hexValue? (c : Char) : Option Nat :=
  if c.isDigit then some (c.toNat - 48)
  else if 'a' ≤ c && c ≤ 'f' then some (c.toNat - 87)
  else if 'A' ≤ c && c ≤ 'F' then some (c.toNat - 55)
  else none

/-- The character with the code point in the next digits. -/
def codeEscape (c : Cursor) (digits : Nat) : Except Error (Cursor × Char) := do
  let some values := (c.rest.take digits).mapM hexValue? | throw .token
  let code := values.foldl (fun n d => 16 * n + d) 0
  if values.length < digits || (0xD800 ≤ code && code ≤ 0xDFFF) || 0x10FFFF < code then throw .token
  return (c.skip digits, Char.ofNat code)

/-- The escape at the cursor, which stands on the backslash. -/
def readEscape (c : Cursor) : Except Error (Cursor × Char) :=
  match c.peek 1 with
  | none => .error .token
  | some letter =>
    match simpleEscape? letter, escapeLength? letter with
    | some ch, _ => .ok (c.skip 2, ch)
    | none, some digits => codeEscape (c.skip 2) digits
    | none, none => .error .token

/-- A quoted text up to a blank or the closing quote. The flag tells that an escaped line break ended
it. -/
def readQuotedWord (quote : Char) : Nat → Cursor → List Char → Except Error (Cursor × List Char × Bool)
  | 0, c, text => .ok (c, text, false)
  | n + 1, c, text =>
    match c.peek with
    | none => .ok (c, text, false)
    | some ch =>
      if isBlank ch || isBreak ch then .ok (c, text, false)
      else if quote = '\x27' && ch = quote && c.at? quote 1 then
        readQuotedWord quote n (c.skip 2) (quote :: text)
      else if ch = quote then .ok (c, text, false)
      else if quote = '\x22' && ch = '\\' then
        if (c.peek 1).any isBreak then .ok (c.skip.skipBreak, text, true)
        else do
          let (c, escaped) ← readEscape c
          readQuotedWord quote n c (escaped :: text)
      else readQuotedWord quote n c.skip (ch :: text)

/-- From behind the opening quote to behind the closing one. -/
def readQuoted (quote : Char) : Nat → Cursor → List Char → Except Error (Cursor × List Char)
  | 0, _, _ => .error .token
  | n + 1, c, text => do
    if c.atDocumentMarker || c.rest.isEmpty then throw .token
    let (c, text, escaped) ← readQuotedWord quote c.fuel c text
    if c.at? quote then return (c.skip, text)
    let (c, g) ← Gap.read 0 c.fuel c { broken := escaped }
    readQuoted quote n c (g.text.reverse ++ text)

/-! ## Block scalars -/

/-- What happens to the line breaks at the end of a block. -/
inductive Chomping where
  | clip | strip | keep
deriving DecidableEq, Repr

structure BlockHeader where
  chomping : Chomping := .clip
  /-- The indentation of the block beyond its surroundings, where it is given. -/
  increment : Option Nat := none

def readChomping (c : Cursor) : Option (Cursor × Chomping) :=
  if c.at? '+' then some (c.skip, .keep) else if c.at? '-' then some (c.skip, .strip) else none

def readIncrement (c : Cursor) : Except Error (Cursor × Option Nat) :=
  match c.peek with
  | some ch =>
      if ch = '0' then .error .token
      else if ch.isDigit then .ok (c.skip, some (ch.toNat - 48))
      else .ok (c, none)
  | none => .ok (c, none)

/-- The two indicators may come in either order. -/
def readBlockHeader (c : Cursor) : Except Error (Cursor × BlockHeader) := do
  match readChomping c with
  | some (c, chomping) =>
      let (c, increment) ← readIncrement c
      return (c, { chomping, increment })
  | none =>
      let (c, increment) ← readIncrement c
      match increment, readChomping c with
      | some _, some (c, chomping) => return (c, { chomping, increment })
      | _, _ => return (c, { increment })

/-- Passes empty lines and the indentation of the next one, and collects the line breaks. Zero stands for
an indentation not yet known; the widest seen is given back. -/
def readBlockBreaks (indent : Nat) : Nat → Cursor → (widest : Nat) → List Char →
    Except Error (Cursor × Nat × List Char)
  | 0, c, widest, breaks => .ok (c, widest, breaks)
  | n + 1, c, widest, breaks =>
    let spaces := (c.takeWhile (· = ' ')).length
    let c := c.skip (if indent = 0 then spaces else min spaces (indent - c.column))
    let widest := max widest c.column
    if (indent = 0 || c.column < indent) && c.at? '\t' then .error .token
    else if c.atBreak then readBlockBreaks indent n c.skipBreak widest (breaks ++ [c.breakChar])
    else .ok (c, widest, breaks)

/-- What is known between two lines of a block. -/
structure BlockState where
  cursor : Cursor
  /-- Last character first. -/
  text : List Char := []
  /-- The break that ended the last line. -/
  lineBreak : List Char := []
  emptyLines : List Char := []
  /-- The last line began with a blank. -/
  blankStart : Bool := false

/-- The lines of a block. Lines that begin with a blank are not folded. -/
def readBlockLines (literal : Bool) (indent : Nat) : Nat → BlockState → Except Error BlockState
  | 0, b => .ok b
  | n + 1, b =>
    let c := b.cursor
    if c.column = indent && !c.rest.isEmpty then do
      let blank := c.peek.any isBlank
      let folds := !literal && b.lineBreak = ['\n'] && !b.blankStart && !blank
      let joint := if folds then (if b.emptyLines.isEmpty then [' '] else b.emptyLines)
        else b.lineBreak ++ b.emptyLines
      let line := c.takeWhile (!isBreak ·)
      let c := c.skip line.length
      let lineBreak := if c.atBreak then [c.breakChar] else []
      let c := if c.atBreak then c.skipBreak else c
      let (c, _, emptyLines) ← readBlockBreaks indent c.fuel c 0 []
      readBlockLines literal indent n
        { cursor := c, text := line.reverse ++ joint.reverse ++ b.text, lineBreak, emptyLines,
          blankStart := blank }
    else .ok b

/-- A block from behind its indicator on; `outer` is the indentation around it. -/
def readBlock (literal : Bool) (outer : Int) (c : Cursor) : Except Error (Cursor × List Char) := do
  let (c, header) ← readBlockHeader c
  let c := c.skipBlanks.skipComment
  if !c.atBreakOrEnd then throw .token
  let c := if c.atBreak then c.skipBreak else c
  let given := header.increment.elim 0 fun k => if 0 ≤ outer then outer.toNat + k else k
  let (c, widest, emptyLines) ← readBlockBreaks given c.fuel c 0 []
  let indent := if given = 0 then max (max widest (outer + 1).toNat) 1 else given
  let b ← readBlockLines literal indent c.fuel { cursor := c, emptyLines }
  let tail := match header.chomping with
    | .strip => []
    | .clip => b.lineBreak
    | .keep => b.lineBreak ++ b.emptyLines
  return (b.cursor, tail.reverse ++ b.text)

end ChipEight.Yaml
