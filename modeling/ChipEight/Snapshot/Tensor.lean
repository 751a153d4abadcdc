import ChipEight.MessagePack.Decode

/-!
# Tensors

The leaves of a snapshot: a shape, the name of the element type and the elements in order, each with
its low byte first. A tensor is a MessagePack extension of its own.
-/

namespace ChipEight

open MessagePack

inductive ElementType where
  | bool | uint8 | uint16 | uint32
deriving DecidableEq, Repr

namespace ElementType

def all : List ElementType := [bool, uint8, uint16, uint32]

def name : ElementType → String
  | .bool => "bool"
  | .uint8 => "uint8"
  | .uint16 => "uint16"
  | .uint32 => "uint32"

/-- Bytes of an element. -/
def size : ElementType → Nat
  | .bool | .uint8 => 1
  | .uint16 => 2
  | .uint32 => 4

end ElementType

structure Tensor where
  shape : List Nat
  elementType : ElementType
  bytes : Bytes
deriving DecidableEq, Repr

namespace Tensor

def tag : Byte := 1

/-! ## Writing -/

def payload (t : Tensor) : Bytes :=
  arrayHeader 3
    ++ (arrayHeader t.shape.length ++ t.shape.flatMap encodeNat)
    ++ encodeText (asciiBytes t.elementType.name)
    ++ encodeBinary t.bytes

def encode (t : Tensor) : Bytes := encodeExtension tag t.payload

/-! ## Reading -/

def dimension? : Value → Option Nat
  | .int z => if 0 ≤ z then some z.toNat else none
  | _ => none

/-- The element types of snapshots, by name. -/
def elementType? (name : Bytes) : Option ElementType :=
  ElementType.all.find? fun t => asciiBytes t.name == name

/-- The elements have to fill the shape. -/
def ofPayload (bs : Bytes) : Except DecodeError Tensor := do
  match ← decodeAll { textsAreUtf8 := false } bs with
  | .array [.array dims, .text name, .binary bytes] =>
      let some elementType := elementType? name | throw .unknownElementType
      let some shape := dims.mapM dimension? | throw .malformedExtension
      if bytes.length = elementType.size * shape.foldl (· * ·) 1 then
        return { shape, elementType, bytes }
      throw .malformedExtension
  | _ => throw .malformedExtension

def ofValue? : Value → Option Tensor
  | .extension 1 payload => (ofPayload payload).toOption
  | _ => none

/-- Accepts a tensor, and leaves the other extensions alone. -/
def check (tag : Int) (payload : Bytes) : Except DecodeError Unit :=
  if tag = 1 then (ofPayload payload).map fun _ => () else .ok ()

/-! ## Elements -/

def littleEndian (k n : Nat) : Bytes := (bigEndian k n).reverse

def ofLittleEndian (bs : Bytes) : Nat := ofBigEndian bs.reverse

/-- A tensor from the values of its elements. -/
def ofNats (shape : List Nat) (elementType : ElementType) (values : List Nat) : Tensor :=
  ⟨shape, elementType, values.flatMap (littleEndian elementType.size)⟩

/-- Cuts bytes into elements of `k` each. -/
def chunks (k : Nat) : Nat → Bytes → List Bytes
  | 0, _ => []
  | n + 1, bs => bs.take k :: chunks k n (bs.drop k)

/-- The values of `n` elements. -/
def values (t : Tensor) (n : Nat) : List Nat := (chunks t.elementType.size n t.bytes).map ofLittleEndian

end Tensor

end ChipEight
