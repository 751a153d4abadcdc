import ChipEight.Word

/-!
# Random bytes

A counter-based generator: a key of two words enciphers a counter in twenty rounds. Keys are never
drawn from twice; they are split, one half to go on with and one half to draw from.
-/

namespace ChipEight

structure Key where
  a : UInt32
  b : UInt32
deriving DecidableEq, Repr, Inhabited

namespace Key

/-! ## The cipher -/

def rotateLeft (x : UInt32) (r : UInt32) : UInt32 := (x <<< r) ||| (x >>> (32 - r))

def round (p : UInt32 × UInt32) (r : UInt32) : UInt32 × UInt32 :=
  let x := p.1 + p.2
  (x, rotateLeft p.2 r ^^^ x)

/-- Adds the next two words of the key schedule. -/
def inject (p : UInt32 × UInt32) (k₀ k₁ i : UInt32) : UInt32 × UInt32 := (p.1 + k₀, p.2 + k₁ + i)

def evenRounds (p : UInt32 × UInt32) : UInt32 × UInt32 := [13, 15, 26, 6].foldl round p

def oddRounds (p : UInt32 × UInt32) : UInt32 × UInt32 := [17, 29, 16, 24].foldl round p

/-- The twenty rounds on one counter. -/
def encipher (k : Key) (c₀ c₁ : UInt32) : UInt32 × UInt32 :=
  let c := k.a ^^^ k.b ^^^ 0x1BD11BDA
  let p := (c₀ + k.a, c₁ + k.b)
  let p := inject (evenRounds p) k.b c 1
  let p := inject (oddRounds p) c k.a 2
  let p := inject (evenRounds p) k.a k.b 3
  let p := inject (oddRounds p) k.b c 4
  inject (evenRounds p) c k.a 5

/-! ## Keys -/

/-- Only the low half of a seed counts. -/
def ofSeed (seed : Int) : Key := ⟨0, .ofBitVec (.ofInt 32 seed)⟩

def ofPair (p : UInt32 × UInt32) : Key := ⟨p.1, p.2⟩

/-- The key to go on with and the key to draw from. -/
def split (k : Key) : Key × Key := (ofPair (k.encipher 0 0), ofPair (k.encipher 0 1))

def next (k : Key) : Key := k.split.1

def byte (k : Key) : Byte :=
  let p := k.encipher 0 0
  (p.1 ^^^ p.2).toBitVec.truncate 8

end Key

end ChipEight
