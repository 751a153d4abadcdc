import ChipEight.Yaml.Scalar

/-!
# Tokens

The parts of a document in the order in which they are read. Collections that are shown by indentation have
tokens of their own, and the token of a key stands before the key.
-/

namespace ChipEight.Yaml

inductive Token where
  | documentStart
  | documentEnd
  | version (major minor : Nat)
  /-- Declares what a tag handle stands for. -/
  | handle (name text : String)
  | blockSequence
  | blockMapping
  | blockEnd
  | flowSequence
  | flowSequenceEnd
  | flowMapping
  | flowMappingEnd
  | blockEntry
  | flowEntry
  | key
  | value
  | anchor (name : String)
  | reference (name : String)
  | tag (handle suffix : String)
  | scalar (plain : Bool) (text : String)
deriving DecidableEq, Repr

/-- The tokens of a text, up to its end or to the first error. -/
structure TokenList where
  tokens : List Token
  error : Option Error := none

/-! ## Anchors and aliases -/

def endsName (c : Option Char) : Bool :=
  endsWord c || c.any fun c => ['?', ':', ',', ']', '\x7d', '%', '@', '\x60'].contains c

/-- The name behind the mark at the cursor. -/
def readName (c : Cursor) : Except Error (Cursor × String) :=
  let c := c.skip
  let name := c.takeWhile isWordChar
  let c := c.skip name.length
  if name.isEmpty || !endsName c.peek then .error .token else .ok (c, String.ofList name)

/-! ## Tags -/

def isUriChar (c : Char) : Bool :=
  isWordChar c || [';', '/', '?', ':', '@', '&', '=', '+', '$', '.', '!', '~', '*', '\x27', '(', ')'].contains c

/-- The octet behind a percent sign. -/
def readOctet (c : Cursor) : Except Error (Cursor × Nat) :=
  match c.rest with
  | '%' :: a :: b :: _ =>
      match hexValue? a, hexValue? b with
      | some high, some low => .ok (c.skip 3, 16 * high + low)
      | _, _ => .error .token
  | _ => .error .token

/-- Further octets of one character. -/
def readTrailing : Nat → Cursor → (code : Nat) → Except Error (Cursor × Nat)
  | 0, c, code => .ok (c, code)
  | n + 1, c, code => do
    let (c, octet) ← readOctet c
    if octet < 0x80 || 0xC0 ≤ octet then throw .token
    readTrailing n c (64 * code + (octet - 0x80))

/-- The character with the escaped octets at the cursor. -/
def readUriEscape (c : Cursor) : Except Error (Cursor × Char) := do
  let (c, first) ← readOctet c
  let (further, code) ←
    if first < 0x80 then pure (0, first)
    else if first < 0xC0 then throw .token
    else if first < 0xE0 then pure (1, first - 0xC0)
    else if first < 0xF0 then pure (2, first - 0xE0)
    else if first < 0xF8 then pure (3, first - 0xF0)
    else throw .token
  let (c, code) ← readTrailing further c code
  return (c, Char.ofNat code)

/-- The text comes last character first. Verbatim tags may also hold commas and square brackets. -/
def readUri (verbatim : Bool) : Nat → Cursor → List Char → Except Error (Cursor × List Char)
  | 0, c, text => .ok (c, text)
  | n + 1, c, text =>
    match c.peek with
    | none => .ok (c, text)
    | some ch =>
      if ch = '%' then do
        let (c, escaped) ← readUriEscape c
        readUri verbatim n c (escaped :: text)
      else if isUriChar ch || (verbatim && [',', '[', ']'].contains ch) then
        readUri verbatim n c.skip (ch :: text)
      else .ok (c, text)

def readUriText (verbatim : Bool) (c : Cursor) : Except Error (Cursor × String) := do
  let (c, text) ← readUri verbatim c.fuel c []
  return (c, String.ofList text.reverse)

/-- An exclamation mark, and a word with a second one if that follows. -/
def readHandle (c : Cursor) : Except Error (Cursor × String) :=
  if c.at? '!' then
    let word := c.skip.takeWhile isWordChar
    let after := c.skip (word.length + 1)
    if after.at? '!' then .ok (after.skip, String.ofList ('!' :: word ++ ['!']))
    else .ok (after, String.ofList ('!' :: word))
  else .error .token

/-- A tag is written out between angle brackets, or with a handle before it. -/
def readTag (flow : Bool) (c : Cursor) : Except Error (Cursor × Token) := do
  let (c, tag) ←
    if c.at? '<' 1 then do
      let (c, suffix) ← readUriText true (c.skip 2)
      if suffix.isEmpty || !c.at? '>' then throw .token
      pure (c.skip, Token.tag "" suffix)
    else do
      let (after, handle) ← readHandle c
      if 1 < handle.length && handle.endsWith "!" then
        let (c, suffix) ← readUriText false after
        if suffix.isEmpty then throw .token
        pure (c, Token.tag handle suffix)
      else
        let (c, suffix) ← readUriText false c.skip
        pure (c, if suffix.isEmpty then Token.tag "" "!" else Token.tag "!" suffix)
  if endsWord c.peek || (flow && c.at? ',') then return (c, tag) else throw .token

/-! ## Directives -/

/-- At most nine digits. -/
def readNumber (c : Cursor) : Except Error (Cursor × Nat) :=
  let digits := c.takeWhile Char.isDigit
  if digits.isEmpty || 9 < digits.length then .error .token
  else .ok (c.skip digits.length, digits.foldl (fun n d => 10 * n + (d.toNat - 48)) 0)

def readVersion (c : Cursor) : Except Error (Cursor × Token) := do
  let (c, major) ← readNumber c.skipBlanks
  if !c.at? '.' then throw .token
  let (c, minor) ← readNumber c.skip
  return (c, .version major minor)

def readHandleDirective (c : Cursor) : Except Error (Cursor × Token) := do
  let (c, name) ← readHandle c.skipBlanks
  if !name.endsWith "!" then throw .token
  if !c.peek.any isBlank then throw .token
  let (c, text) ← readUriText true c.skipBlanks
  if text.isEmpty || !endsWord c.peek then throw .token
  return (c, .handle name text)

/-- A directive from its percent sign to the end of the line. -/
def readDirective (c : Cursor) : Except Error (Cursor × Token) := do
  let c := c.skip
  let name := c.takeWhile isWordChar
  let c := c.skip name.length
  if name.isEmpty || !endsWord c.peek then throw .token
  let (c, token) ← match String.ofList name with
    | "YAML" => readVersion c
    | "TAG" => readHandleDirective c
    | _ => throw .token
  let c := c.skipBlanks.skipComment
  if !c.atBreakOrEnd then throw .token
  return (if c.atBreak then c.skipBreak else c, token)

end ChipEight.Yaml
