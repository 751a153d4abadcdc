/-!
# Reading YAML characters

Classes of characters, and a cursor that knows its line and its column.
-/

namespace ChipEight.Yaml

/-- At which stage a text is rejected. -/
inductive Error where
  /-- A character that no text may hold. -/
  | character
  /-- A part that is no token. -/
  | token
  /-- Tokens in an order that makes no document. -/
  | grammar
  /-- An anchor or an alias that does not fit, or a second document. -/
  | reference
  /-- A node that stands for no datum. -/
  | construction
  /-- A number without digits. -/
  | number
  /-- A word that is no truth value although it is marked as one. -/
  | truthValue
  /-- A node that holds itself. -/
  | recursion
deriving DecidableEq, Repr

/-! ## Characters -/

/-- Tabs, line breaks and everything printable. -/
def isAllowed (c : Char) : Bool :=
  let n := c.toNat
  n = 0x09 || n = 0x0A || n = 0x0D || (0x20 ≤ n && n ≤ 0x7E) || n = 0x85
    || (0xA0 ≤ n && n ≤ 0xD7FF) || (0xE000 ≤ n && n ≤ 0xFFFD) || 0x10000 ≤ n

def isBlank (c : Char) : Bool := c = ' ' || c = '\t'

def isBreak (c : Char) : Bool :=
  c = '\n' || c = '\r' || c = '\u0085' || c = '\u2028' || c = '\u2029'

/-- The characters of anchors and of tag handles. -/
def isWordChar (c : Char) : Bool := c.isAlphanum || c = '_' || c = '-'

/-- A blank, a line break or the end. -/
def endsWord (c : Option Char) : Bool := c.all fun c => isBlank c || isBreak c

/-! ## The cursor -/

structure Cursor where
  rest : List Char
  index : Nat := 0
  line : Nat := 0
  column : Nat := 0

namespace Cursor

def peek (c : Cursor) (k : Nat := 0) : Option Char := c.rest[k]?

def at? (c : Cursor) (ch : Char) (k : Nat := 0) : Bool := c.rest[k]? = some ch

/-- Within a line. -/
def skip (c : Cursor) (n : Nat := 1) : Cursor :=
  { c with rest := c.rest.drop n, index := c.index + n, column := c.column + n }

def takeWhile (c : Cursor) (p : Char → Bool) : List Char := c.rest.takeWhile p

def skipWhile (c : Cursor) (p : Char → Bool) : Cursor := c.skip (c.takeWhile p).length

def skipBlanks (c : Cursor) : Cursor := c.skipWhile isBlank

def skipComment (c : Cursor) : Cursor := if c.at? '#' then c.skipWhile (!isBreak ·) else c

def atBreak (c : Cursor) : Bool := c.peek.any isBreak

def atBreakOrEnd (c : Cursor) : Bool := c.peek.all isBreak

/-- The characters of the line break at the cursor. -/
def breakLength (c : Cursor) : Nat :=
  match c.rest with
  | '\r' :: '\n' :: _ => 2
  | ch :: _ => if isBreak ch then 1 else 0
  | [] => 0

/-- Passes the line break at the cursor. -/
def skipBreak (c : Cursor) : Cursor :=
  { c with
    rest := c.rest.drop c.breakLength
    index := c.index + c.breakLength
    line := c.line + 1
    column := 0 }

/-- The line break at the cursor as it enters a text. -/
def breakChar (c : Cursor) : Char :=
  match c.peek with
  | some '\u2028' => '\u2028'
  | some '\u2029' => '\u2029'
  | _ => '\n'

/-- Three equal marks alone at the start of a line separate documents. -/
def atMarker (c : Cursor) (mark : Char) : Bool :=
  c.column = 0 && c.at? mark 0 && c.at? mark 1 && c.at? mark 2 && endsWord (c.peek 3)

def atDocumentMarker (c : Cursor) : Bool := c.atMarker '-' || c.atMarker '.'

/-- Enough for any loop that passes a character in each round. -/
def fuel (c : Cursor) : Nat := c.rest.length + 1

end Cursor

end ChipEight.Yaml
