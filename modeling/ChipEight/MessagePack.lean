import ChipEight.Word

/-!
# MessagePack values

The values of the format and how they are written. Every value takes its smallest form.
-/

namespace ChipEight

abbrev Bytes := List Byte

namespace MessagePack

/-- Texts are kept as the bytes of their encoding. -/
inductive Value where
  | nil
  | bool (b : Bool)
  | int (z : Int)
  | float (bytes : Bytes)
  | text (bytes : Bytes)
  | binary (bytes : Bytes)
  | array (items : List Value)
  | map (entries : List (Value × Value))
  | extension (tag : Int) (payload : Bytes)
deriving Inhabited, Repr

/-! ## Big-endian numbers -/

/-- The low `k` bytes of a number, the most significant one first. -/
def bigEndian : (k : Nat) → Nat → Bytes
  | 0, _ => []
  | k + 1, n => bigEndian k (n / 256) ++ [.ofNat 8 n]

def ofBigEndian (bs : Bytes) : Nat := bs.foldl (fun n b => 256 * n + b.toNat) 0

/-! ## Headers -/

/-- A marker and the length behind it, in as few bytes as the marker's family allows. -/
def sizedHeader (one? : Option Byte) (two four : Byte) (n : Nat) : Bytes :=
  match one? with
  | some one =>
      if n < 0x100 then one :: bigEndian 1 n
      else if n < 0x10000 then two :: bigEndian 2 n else four :: bigEndian 4 n
  | none => if n < 0x10000 then two :: bigEndian 2 n else four :: bigEndian 4 n

def textHeader (n : Nat) : Bytes :=
  if n < 32 then [.ofNat 8 (0xA0 + n)] else sizedHeader (some 0xD9) 0xDA 0xDB n

def binaryHeader (n : Nat) : Bytes := sizedHeader (some 0xC4) 0xC5 0xC6 n

def arrayHeader (n : Nat) : Bytes :=
  if n < 16 then [.ofNat 8 (0x90 + n)] else sizedHeader none 0xDC 0xDD n

def mapHeader (n : Nat) : Bytes :=
  if n < 16 then [.ofNat 8 (0x80 + n)] else sizedHeader none 0xDE 0xDF n

/-- The lengths one, two, four, eight and sixteen have markers of their own. -/
def extensionHeader (n : Nat) : Bytes :=
  match n with
  | 1 => [0xD4]
  | 2 => [0xD5]
  | 4 => [0xD6]
  | 8 => [0xD7]
  | 16 => [0xD8]
  | _ => sizedHeader (some 0xC7) 0xC8 0xC9 n

/-! ## Writing -/

def encodeNat (n : Nat) : Bytes :=
  if n < 0x80 then [.ofNat 8 n]
  else if n < 0x100 then 0xCC :: bigEndian 1 n
  else if n < 0x10000 then 0xCD :: bigEndian 2 n
  else if n < 0x100000000 then 0xCE :: bigEndian 4 n
  else 0xCF :: bigEndian 8 n

def encodeText (bytes : Bytes) : Bytes := textHeader bytes.length ++ bytes

def encodeBinary (bytes : Bytes) : Bytes := binaryHeader bytes.length ++ bytes

def encodeExtension (tag : Byte) (payload : Bytes) : Bytes :=
  extensionHeader payload.length ++ tag :: payload

/-- The bytes of a text of ASCII letters. -/
def asciiBytes (s : String) : Bytes := s.toList.map fun c => .ofNat 8 c.toNat

end MessagePack

end ChipEight
