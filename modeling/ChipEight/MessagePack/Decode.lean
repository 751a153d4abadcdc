import ChipEight.MessagePack

/-!
# Reading MessagePack

A value is read from the front of the bytes and the rest is handed on. `decodeAll` wants a single
value and nothing behind it.
-/

namespace ChipEight.MessagePack

inductive DecodeError where
  | truncated
  | trailing
  /-- The one marker that the format leaves unused. -/
  | reserved
  | tooDeep
  /-- A text that is not valid UTF-8. -/
  | malformedText
  | keyNotText
  | malformedExtension
  /-- An extension names an element type that does not exist. -/
  | unknownElementType
deriving DecidableEq, Repr

/-- What a reader insists on. -/
structure Reader where
  textsAreUtf8 : Bool := true
  checkExtension : Int → Bytes → Except DecodeError Unit := fun _ _ => .ok ()

abbrev Parse (α : Type) := Bytes → Except DecodeError (α × Bytes)

/-! ## Parts of a value -/

def takeExactly (n : Nat) : Parse Bytes := fun bs =>
  let taken := bs.take n
  if taken.length = n then .ok (taken, bs.drop n) else .error .truncated

def natural (k : Nat) : Parse Nat := fun bs => do
  let (taken, rest) ← takeExactly k bs
  return (ofBigEndian taken, rest)

/-- Two's complement in `k` bytes. -/
def signed (k : Nat) : Parse Int := fun bs => do
  let (n, rest) ← natural k bs
  return (if n < Nat.pow 2 (8 * k - 1) then n else n - Nat.pow 2 (8 * k), rest)

/-- Reads `n` times in a row. -/
def count {α : Type} (one : Parse α) : Nat → Parse (List α)
  | 0, bs => .ok ([], bs)
  | n + 1, bs => do
      let (a, bs) ← one bs
      let (as, bs) ← count one n bs
      return (a :: as, bs)

/-! ## Markers -/

/-- A value without parts, or the number of parts that follow. -/
inductive Opening where
  | whole (v : Value)
  | array (n : Nat)
  | map (n : Nat)

namespace Opening

def isUtf8 (bytes : Bytes) : Bool :=
  bytes.all (·.toNat < 0x80) || (ByteArray.mk (bytes.map (UInt8.ofBitVec ·)).toArray).validateUTF8

def text (r : Reader) (n : Nat) : Parse Opening := fun bs => do
  let (bytes, rest) ← takeExactly n bs
  if r.textsAreUtf8 && !isUtf8 bytes then throw .malformedText
  return (.whole (.text bytes), rest)

def binary (n : Nat) : Parse Opening := fun bs => do
  let (bytes, rest) ← takeExactly n bs
  return (.whole (.binary bytes), rest)

def extension (r : Reader) (n : Nat) : Parse Opening := fun bs => do
  let (tag, bs) ← signed 1 bs
  let (payload, rest) ← takeExactly n bs
  r.checkExtension tag payload
  return (.whole (.extension tag payload), rest)

/-- Reads a length of `k` bytes and goes on with it. -/
def sized (k : Nat) (body : Nat → Parse Opening) : Parse Opening := fun bs => do
  let (n, rest) ← natural k bs
  body n rest

def counted (k : Nat) (opening : Nat → Opening) : Parse Opening :=
  sized k fun n rest => .ok (opening n, rest)

def ofNatural (k : Nat) : Parse Opening := fun bs => do
  let (n, rest) ← natural k bs
  return (.whole (.int n), rest)

def ofSigned (k : Nat) : Parse Opening := fun bs => do
  let (z, rest) ← signed k bs
  return (.whole (.int z), rest)

def float (k : Nat) : Parse Opening := fun bs => do
  let (bytes, rest) ← takeExactly k bs
  return (.whole (.float bytes), rest)

/-- The markers from `0xC0` to `0xDF`, which say what follows without holding any of it. -/
def marked (r : Reader) (marker : Nat) : Parse Opening :=
  match marker with
  | 0xC0 => fun bs => .ok (.whole .nil, bs)
  | 0xC2 => fun bs => .ok (.whole (.bool false), bs)
  | 0xC3 => fun bs => .ok (.whole (.bool true), bs)
  | 0xC4 => sized 1 binary
  | 0xC5 => sized 2 binary
  | 0xC6 => sized 4 binary
  | 0xC7 => sized 1 (extension r)
  | 0xC8 => sized 2 (extension r)
  | 0xC9 => sized 4 (extension r)
  | 0xCA => float 4
  | 0xCB => float 8
  | 0xCC => ofNatural 1
  | 0xCD => ofNatural 2
  | 0xCE => ofNatural 4
  | 0xCF => ofNatural 8
  | 0xD0 => ofSigned 1
  | 0xD1 => ofSigned 2
  | 0xD2 => ofSigned 4
  | 0xD3 => ofSigned 8
  | 0xD4 => extension r 1
  | 0xD5 => extension r 2
  | 0xD6 => extension r 4
  | 0xD7 => extension r 8
  | 0xD8 => extension r 16
  | 0xD9 => sized 1 (text r)
  | 0xDA => sized 2 (text r)
  | 0xDB => sized 4 (text r)
  | 0xDC => counted 2 .array
  | 0xDD => counted 4 .array
  | 0xDE => counted 2 .map
  | 0xDF => counted 4 .map
  | _ => fun _ => .error .reserved

def read (r : Reader) : Parse Opening
  | [] => .error .truncated
  | b :: bs =>
      let m := b.toNat
      if m < 0x80 then .ok (.whole (.int m), bs)
      else if m < 0x90 then .ok (.map (m - 0x80), bs)
      else if m < 0xA0 then .ok (.array (m - 0x90), bs)
      else if m < 0xC0 then text r (m - 0xA0) bs
      else if m < 0xE0 then marked r m bs
      else .ok (.whole (.int (m - 0x100)), bs)

end Opening

/-! ## Values -/

/-- Keys are texts or bytes. The key is looked at after its value is read. -/
def entry (one : Parse Value) : Parse (Value × Value) := fun bs => do
  let (key, bs) ← one bs
  let (value, bs) ← one bs
  match key with
  | .text _ | .binary _ => return ((key, value), bs)
  | _ => throw .keyNotText

/-- Reads the parts of an opened container. -/
def close (one? : Option (Parse Value)) (opening : Opening) : Parse Value := fun bs =>
  match opening with
  | .whole v => .ok (v, bs)
  | .array 0 => .ok (.array [], bs)
  | .map 0 => .ok (.map [], bs)
  | .array n => do
      let some one := one? | throw .tooDeep
      let (items, rest) ← count one n bs
      return (.array items, rest)
  | .map n => do
      let some one := one? | throw .tooDeep
      let (entries, rest) ← count (entry one) n bs
      return (.map entries, rest)

/-- Containers that are not empty lie at most `depth` deep in each other. -/
def decode (r : Reader) : (depth : Nat) → Parse Value
  | 0, bs => do
      let (opening, bs) ← Opening.read r bs
      close none opening bs
  | depth + 1, bs => do
      let (opening, bs) ← Opening.read r bs
      close (some (decode r depth)) opening bs

def maxDepth : Nat := 1024

def decodeAll (r : Reader) (bs : Bytes) : Except DecodeError Value := do
  let (v, rest) ← decode r maxDepth bs
  if rest.isEmpty then return v else throw .trailing

end ChipEight.MessagePack
