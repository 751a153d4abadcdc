import ChipEight.Snapshot.Tensor
import ChipEight.State

/-!
# Snapshots

A snapshot is a MessagePack map with an entry for each part of the state but the dialect, which a
restored state takes from the machine that it replaces.
-/

namespace ChipEight

open MessagePack

inductive SnapshotError where
  | decoding (e : DecodeError)
  /-- A mapping was expected. -/
  | notAMap
  | missingField
  | unknownField
  | malformedField
deriving DecidableEq, Repr

namespace Snapshot

/-! ## Writing -/

def wordTensor (w : Word) : Tensor := .ofNats [] .uint16 [w.toNat]

def byteTensor (b : Byte) : Tensor := .ofNats [] .uint8 [b.toNat]

def boolTensor (b : Bool) : Tensor := .ofNats [] .bool [b.toNat]

def keyTensor (k : Key) : Tensor := .ofNats [2] .uint32 [k.a.toNat, k.b.toNat]

def bytesTensor {n : Nat} (v : Vector Byte n) : Tensor := .ofNats [n] .uint8 (v.toList.map BitVec.toNat)

def wordsTensor {n : Nat} (v : Vector Word n) : Tensor := .ofNats [n] .uint16 (v.toList.map BitVec.toNat)

def boolsTensor {n : Nat} (v : Vector Bool n) : Tensor := .ofNats [n] .bool (v.toList.map Bool.toNat)

/-- Row by row, and each row from the left. -/
def screenTensor (s : Screen) : Tensor :=
  .ofNats [32, 64] .bool (s.toList.flatMap fun row => (List.range 64).map fun x => (row.getMsbD x).toNat)

/-- A key and what stands under it. -/
def field (name : String) (value : Bytes) : Bytes := encodeText (asciiBytes name) ++ value

def stackMap (s : CallStack) : Bytes :=
  mapHeader 2
    ++ field "data" (wordsTensor s.slots).encode
    ++ field "pointer" (byteTensor s.pointer).encode

end Snapshot

open Snapshot in
def State.save (s : State) : Bytes :=
  mapHeader 13
    ++ field "rng" (keyTensor s.rng).encode
    ++ field "memory" (bytesTensor s.memory).encode
    ++ field "pc" (wordTensor s.pc).encode
    ++ field "display" (screenTensor s.screen).encode
    ++ field "stack" (stackMap s.stack)
    ++ field "delay_timer" (byteTensor s.delay).encode
    ++ field "sound_timer" (byteTensor s.sound).encode
    ++ field "keypad" (boolsTensor s.keypad).encode
    ++ field "V" (bytesTensor s.v).encode
    ++ field "I" (wordTensor s.index).encode
    ++ field "vblank" (boolTensor s.ticked).encode
    ++ field "fault" (byteTensor s.fault).encode
    ++ field "fault_info" (wordTensor s.detail).encode

namespace Snapshot

/-! ## Fields of a map -/

/-- The names of the fields, where they are texts, and their values. -/
abbrev Fields := List (Option Bytes × Value)

def nameOf? : Value → Option Bytes
  | .text name => some name
  | _ => none

/-- A list or a tensor passes for a mapping without fields. -/
def Fields.ofValue : Value → Except SnapshotError Fields
  | .map entries => .ok (entries.map fun (k, v) => (nameOf? k, v))
  | .array _ => .ok []
  | .extension 1 _ => .ok []
  | _ => .error .notAMap

/-- Of several entries under one name the last one counts. -/
def Fields.get (fs : Fields) (name : String) : Except SnapshotError Value :=
  match fs.reverse.lookup (some (asciiBytes name)) with
  | some v => .ok v
  | none => .error .missingField

def Fields.checkNames (fs : Fields) (names : List String) : Except SnapshotError Unit :=
  if fs.all fun (k, _) => names.any fun name => some (asciiBytes name) == k then .ok ()
  else .error .unknownField

/-! ## Reading -/

/-- The element values of a tensor with the expected shape and element type. -/
def nats (shape : List Nat) (elementType : ElementType) (v : Value) : Except SnapshotError (List Nat) :=
  match Tensor.ofValue? v with
  | some t =>
      if t.shape = shape ∧ t.elementType = elementType then .ok (t.values (shape.foldl (· * ·) 1))
      else .error .malformedField
  | none => .error .malformedField

def nat (elementType : ElementType) (v : Value) : Except SnapshotError Nat :=
  (nats [] elementType v).map fun ns => ns.headD 0

def byte (v : Value) : Except SnapshotError Byte := (nat .uint8 v).map (BitVec.ofNat 8)

def word (v : Value) : Except SnapshotError Word := (nat .uint16 v).map (BitVec.ofNat 16)

def bool (v : Value) : Except SnapshotError Bool := (nat .bool v).map (· != 0)

/-- A vector from a list of values; what is missing reads as zero. -/
def vector {α : Type} (n : Nat) (f : Nat → α) (ns : List Nat) : Vector α n :=
  let values := ns.toArray
  Vector.ofFn fun i => f (values[i.val]?.getD 0)

def bytes (n : Nat) (v : Value) : Except SnapshotError (Vector Byte n) :=
  (nats [n] .uint8 v).map (vector n (BitVec.ofNat 8))

def words (n : Nat) (v : Value) : Except SnapshotError (Vector Word n) :=
  (nats [n] .uint16 v).map (vector n (BitVec.ofNat 16))

def bools (n : Nat) (v : Value) : Except SnapshotError (Vector Bool n) :=
  (nats [n] .bool v).map (vector n (· != 0))

def key (v : Value) : Except SnapshotError Key :=
  (nats [2] .uint32 v).map fun ns => ⟨.ofNat (ns.getD 0 0), .ofNat (ns.getD 1 0)⟩

/-- The row with the given pixels, from the left. -/
def rowOfPixels (pixels : Fin 64 → Bool) : Row :=
  (BitVec.ofBoolListBE (List.ofFn pixels)).cast List.length_ofFn

def screen (v : Value) : Except SnapshotError Screen :=
  (nats [32, 64] .bool v).map fun ns =>
    let values := ns.toArray
    Vector.ofFn fun y => rowOfPixels fun x => values[64 * y.val + x.val]?.getD 0 != 0

/-! ## Leaves -/

def fieldNames : List String :=
  ["rng", "memory", "pc", "display", "stack", "delay_timer", "sound_timer", "keypad", "V", "I",
   "vblank", "fault", "fault_info"]

structure StackLeaves where
  slots : Value
  pointer : Value

/-- What stands under the names of the fields. -/
structure Leaves where
  rng : Value
  memory : Value
  pc : Value
  screen : Value
  stack : StackLeaves
  delay : Value
  sound : Value
  keypad : Value
  v : Value
  index : Value
  ticked : Value
  fault : Value
  detail : Value

namespace StackLeaves

def ofValue (v : Value) : Except SnapshotError StackLeaves := do
  let fs ← Fields.ofValue v
  let slots ← fs.get "data"
  let pointer ← fs.get "pointer"
  fs.checkNames ["data", "pointer"]
  return { slots, pointer }

def stack (l : StackLeaves) : Except SnapshotError CallStack := do
  return { slots := ← words 16 l.slots, pointer := ← byte l.pointer }

end StackLeaves

namespace Leaves

def ofFields (fs : Fields) : Except SnapshotError Leaves := do
  let rng ← fs.get "rng"
  let memory ← fs.get "memory"
  let pc ← fs.get "pc"
  let screen ← fs.get "display"
  let stack ← StackLeaves.ofValue (← fs.get "stack")
  let delay ← fs.get "delay_timer"
  let sound ← fs.get "sound_timer"
  let keypad ← fs.get "keypad"
  let v ← fs.get "V"
  let index ← fs.get "I"
  let ticked ← fs.get "vblank"
  let fault ← fs.get "fault"
  let detail ← fs.get "fault_info"
  fs.checkNames fieldNames
  return { rng, memory, pc, screen, stack, delay, sound, keypad, v, index, ticked, fault, detail }

def ofData (data : Bytes) : Except SnapshotError Leaves :=
  match decodeAll { checkExtension := Tensor.check } data with
  | .error e => .error (.decoding e)
  | .ok v => do ofFields (← Fields.ofValue v)

/-- A state has no room for a leaf that is not a tensor of the shape and the element type of its field. -/
def state (l : Leaves) (dialect : Dialect) : Except SnapshotError State := do
  return {
    rng := ← key l.rng
    memory := ← bytes 4096 l.memory
    pc := ← word l.pc
    screen := ← Snapshot.screen l.screen
    stack := ← l.stack.stack
    delay := ← byte l.delay
    sound := ← byte l.sound
    keypad := ← bools 16 l.keypad
    v := ← bytes 16 l.v
    index := ← word l.index
    ticked := ← bool l.ticked
    fault := ← byte l.fault
    detail := ← word l.detail
    dialect }

end Leaves

end Snapshot

/-- The dialect is that of the template. -/
def State.restore (template : State) (data : Bytes) : Except SnapshotError State := do
  (← Snapshot.Leaves.ofData data).state template.dialect

end ChipEight
