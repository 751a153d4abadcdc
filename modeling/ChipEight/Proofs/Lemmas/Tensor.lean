import ChipEight.Proofs.Lemmas.Block
import ChipEight.Proofs.Lemmas.MessagePack
import ChipEight.Snapshot.Tensor

/-!
# Reading tensors back

A tensor that fits the format is read back from its payload (`ofPayload_payload`), and its elements
from its bytes (`values_ofNats`).
-/

namespace ChipEight.Tensor

open MessagePack

/-! ## Elements -/

theorem length_littleEndian (k n : Nat) : (littleEndian k n).length = k := by
  simp [littleEndian, length_bigEndian]

theorem ofLittleEndian_littleEndian (k n : Nat) :
    ofLittleEndian (littleEndian k n) = n % 256 ^ k := by
  simp [ofLittleEndian, littleEndian, ofBigEndian_bigEndian]

theorem chunks_flatMap (k : Nat) (ns : List Nat) :
    chunks k ns.length (ns.flatMap (littleEndian k)) = ns.map (littleEndian k) := by
  induction ns with
  | nil => rfl
  | cons n ns ih =>
      have hl := length_littleEndian k n
      simp only [List.length_cons, chunks, List.flatMap_cons, List.map_cons]
      rw [List.take_left' hl, List.drop_left' hl, ih]

theorem values_ofNats {shape : List Nat} {e : ElementType} {ns : List Nat}
    (h : ∀ n ∈ ns, n < 256 ^ e.size) : (ofNats shape e ns).values ns.length = ns := by
  rw [values, ofNats, chunks_flatMap, List.map_map]
  exact (List.map_congr_left fun n hn => by
    simp [ofLittleEndian_littleEndian, Nat.mod_eq_of_lt (h n hn)]).trans (List.map_id ns)

theorem length_ofNats (shape : List Nat) (e : ElementType) (ns : List Nat) :
    (ofNats shape e ns).bytes.length = e.size * ns.length :=
  length_flatMap (length_littleEndian e.size) ns

/-! ## Payloads -/

/-- A tensor whose parts are small enough for the headers and whose bytes fill its shape. -/
structure Fits (t : Tensor) : Prop where
  rank : t.shape.length < 16
  dimensions : ∀ d ∈ t.shape, d < 2 ^ 64
  filled : t.bytes.length = t.elementType.size * t.shape.foldl (· * ·) 1
  small : t.bytes.length < 2 ^ 31

/-- What a tensor is read as. -/
def value (t : Tensor) : Value := .extension 1 t.payload

theorem dims_mapM (shape : List Nat) :
    shape.mapM (dimension? ∘ fun n : Nat => Value.int n) = some shape := by
  induction shape with
  | nil => rfl
  | cons n shape ih => simp [ih, dimension?]

theorem elementType?_name (e : ElementType) : elementType? (asciiBytes e.name) = some e := by
  cases e <;> rfl

variable {t : Tensor}

theorem shape_reads {r : Reader} {depth : Nat} (h : t.Fits) : Reads (decode r (depth + 1))
    (arrayHeader t.shape.length ++ t.shape.flatMap encodeNat)
    (.array (t.shape.map fun n : Nat => .int n)) := by
  have hitems : ∀ i ∈ t.shape.map fun n : Nat => (encodeNat n, Value.int n),
      Reads (decode r depth) i.1 i.2 := by
    intro i hi
    obtain ⟨n, hn, rfl⟩ := List.mem_map.mp hi
    exact decode_whole (Opening.encodeNat_reads (h.dimensions n hn))
  have := decode_array (by simpa using h.rank) hitems
  simpa [List.flatMap_map, Function.comp_def] using this

theorem length_name_le (e : ElementType) : (asciiBytes e.name).length ≤ 6 := by
  cases e <;> decide

theorem payload_reads (depth : Nat) (h : t.Fits) :
    Reads (decode { textsAreUtf8 := false } (depth + 2)) t.payload
      (.array [.array (t.shape.map fun n : Nat => .int n), .text (asciiBytes t.elementType.name),
        .binary t.bytes]) := by
  have hname := length_name_le t.elementType
  have hsmall := h.small
  have hitems : ∀ i ∈ [(arrayHeader t.shape.length ++ t.shape.flatMap encodeNat,
        Value.array (t.shape.map fun n : Nat => .int n)),
      (encodeText (asciiBytes t.elementType.name), .text (asciiBytes t.elementType.name)),
      (encodeBinary t.bytes, .binary t.bytes)],
      Reads (decode { textsAreUtf8 := false } (depth + 1)) i.1 i.2 := by
    simp only [List.forall_mem_cons]
    exact ⟨shape_reads h, decode_whole (Opening.encodeText_reads (by omega) (by simp)),
      decode_whole (Opening.encodeBinary_reads (by omega)), by simp⟩
  have := decode_array (by simp) hitems
  simpa [payload] using this

theorem ofPayload_payload (h : t.Fits) : ofPayload t.payload = .ok t := by
  have hdecode := decodeAll_of_reads (payload_reads 1022 h)
  simp only [ofPayload, hdecode]
  simp [bind, Except.bind, elementType?_name, dims_mapM, h.filled, pure, Except.pure]

theorem ofValue?_value (h : t.Fits) : ofValue? t.value = some t := by
  simp only [value, ofValue?, ofPayload_payload h]
  rfl

theorem check_payload (h : t.Fits) : check 1 t.payload = .ok () := by
  simp only [check, ofPayload_payload h]
  rfl

/-! ## Tensors as values -/

theorem length_sizedHeader_le (one? : Option Byte) (two four : Byte) (n : Nat) :
    (sizedHeader one? two four n).length ≤ 5 := by
  cases one? <;> simp only [sizedHeader] <;> repeat' split
  all_goals simp [length_bigEndian]

theorem length_textHeader_le (n : Nat) : (textHeader n).length ≤ 5 := by
  unfold textHeader
  split
  · simp
  · exact length_sizedHeader_le ..

theorem length_arrayHeader_le (n : Nat) : (arrayHeader n).length ≤ 5 := by
  unfold arrayHeader
  split
  · simp
  · exact length_sizedHeader_le ..

theorem length_encodeNat_le (n : Nat) : (encodeNat n).length ≤ 9 := by
  simp only [encodeNat]
  repeat' split
  all_goals simp [length_bigEndian]

theorem length_flatMap_encodeNat_le (ns : List Nat) :
    (ns.flatMap encodeNat).length ≤ 9 * ns.length := by
  induction ns with
  | nil => simp
  | cons n ns ih =>
      have := length_encodeNat_le n
      simp only [List.flatMap_cons, List.length_append, List.length_cons]
      omega

/-- The largest part are the bytes of the elements. -/
theorem length_payload_lt (h : t.Fits) : t.payload.length < 2 ^ 32 := by
  have hshape := length_flatMap_encodeNat_le t.shape
  have hname := length_name_le t.elementType
  have h₁ := length_arrayHeader_le 3
  have h₂ := length_arrayHeader_le t.shape.length
  have h₃ := length_textHeader_le (asciiBytes t.elementType.name).length
  have h₄ := length_sizedHeader_le (some 0xC4) 0xC5 0xC6 t.bytes.length
  have hrank := h.rank
  have hsmall := h.small
  simp only [payload, encodeText, encodeBinary, binaryHeader, List.length_append]
  omega

/-- The reader accepts the tensors that fit the format. -/
def ReadBy (r : Reader) : Prop := ∀ t : Tensor, t.Fits → r.checkExtension 1 t.payload = .ok ()

theorem check_readBy : ReadBy { checkExtension := check } := fun _ => check_payload

theorem encode_reads {r : Reader} {depth : Nat} (hr : ReadBy r) (h : t.Fits) :
    Reads (decode r depth) t.encode t.value :=
  decode_whole (Opening.encodeExtension_reads (length_payload_lt h) (by decide) (hr t h))

end ChipEight.Tensor
