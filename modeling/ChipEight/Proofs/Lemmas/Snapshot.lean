import ChipEight.Proofs.Lemmas.Tensor
import ChipEight.Snapshot

/-!
# Reading snapshots back

Every part of a state is read back from its tensor, so that restoring a saved state gives the state
again, with the dialect of the machine that it is restored into (`State.restore_save`).
-/

namespace ChipEight

open MessagePack

namespace Snapshot

/-! ## Elements -/

section Elements

variable {shape : List Nat} {e : ElementType} {ns : List Nat}

theorem ofNats_fits (hr : shape.length < 16) (hd : ∀ d ∈ shape, d < 2 ^ 64)
    (hf : ns.length = shape.foldl (· * ·) 1) (hs : ns.length ≤ 4096) :
    (Tensor.ofNats shape e ns).Fits where
  rank := hr
  dimensions := hd
  filled := by
    rw [Tensor.length_ofNats, hf]
    rfl
  small := by
    have he : e.size ≤ 4 := by cases e <;> decide
    have := Nat.mul_le_mul he hs
    rw [Tensor.length_ofNats]
    omega

theorem nats_ofNats (h : (Tensor.ofNats shape e ns).Fits) (hf : ns.length = shape.foldl (· * ·) 1)
    (hn : ∀ n ∈ ns, n < 256 ^ e.size) : nats shape e (Tensor.ofNats shape e ns).value = .ok ns := by
  simp only [nats, Tensor.ofValue?_value h]
  rw [if_pos ⟨rfl, rfl⟩, ← hf, Tensor.values_ofNats hn]

/-- What a list of elements is read as, and what its values are. -/
theorem ofNats_reads (shape : List Nat) (e : ElementType) (ns : List Nat)
    (hr : shape.length < 16) (hd : ∀ d ∈ shape, d < 2 ^ 64) (hf : ns.length = shape.foldl (· * ·) 1)
    (hs : ns.length ≤ 4096) (hn : ∀ n ∈ ns, n < 256 ^ e.size) :
    (Tensor.ofNats shape e ns).Fits ∧ nats shape e (Tensor.ofNats shape e ns).value = .ok ns :=
  have h := ofNats_fits hr hd hf hs
  ⟨h, nats_ofNats h hf hn⟩

end Elements

theorem scalar_reads {e : ElementType} {n : Nat} (hn : n < 256 ^ e.size) :
    (Tensor.ofNats [] e [n]).Fits ∧ nat e (Tensor.ofNats [] e [n]).value = .ok n := by
  obtain ⟨hf, hr⟩ := ofNats_reads [] e [n] (by simp) (by simp) rfl (by simp)
    (by simpa using hn)
  refine ⟨hf, ?_⟩
  rw [nat, hr]
  rfl

theorem vector_toList {α : Type} {n : Nat} {f : Nat → α} {g : α → Nat} (v : Vector α n)
    (h : ∀ a, f (g a) = a) : vector n f (v.toList.map g) = v := by
  ext i hi
  simp [vector, h]

theorem vector_reads {α : Type} {n : Nat} {e : ElementType} {f : Nat → α} {g : α → Nat}
    (v : Vector α n) (hn : n ≤ 4096) (hg : ∀ a, g a < 256 ^ e.size) (h : ∀ a, f (g a) = a) :
    (Tensor.ofNats [n] e (v.toList.map g)).Fits ∧
      (nats [n] e (Tensor.ofNats [n] e (v.toList.map g)).value).map (vector n f) = .ok v := by
  obtain ⟨hf, hr⟩ := ofNats_reads [n] e (v.toList.map g) (by simp)
    (by simp; omega) (by simp) (by simpa) (by simp [hg])
  exact ⟨hf, by rw [hr, Except.map, vector_toList v h]⟩

/-! ## Parts of a state -/

theorem wordTensor_reads (w : Word) : (wordTensor w).Fits ∧ word (wordTensor w).value = .ok w := by
  obtain ⟨hf, hr⟩ := scalar_reads (e := .uint16) w.isLt
  exact ⟨hf, by rw [word, wordTensor, hr, Except.map, BitVec.ofNat_toNat, BitVec.setWidth_eq]⟩

theorem byteTensor_reads (b : Byte) : (byteTensor b).Fits ∧ byte (byteTensor b).value = .ok b := by
  obtain ⟨hf, hr⟩ := scalar_reads (e := .uint8) b.isLt
  exact ⟨hf, by rw [byte, byteTensor, hr, Except.map, BitVec.ofNat_toNat, BitVec.setWidth_eq]⟩

theorem toNat_bne_zero (b : Bool) : (b.toNat != 0) = b := by
  cases b <;> rfl

theorem boolTensor_reads (b : Bool) : (boolTensor b).Fits ∧ bool (boolTensor b).value = .ok b := by
  obtain ⟨hf, hr⟩ := scalar_reads (e := .bool) (n := b.toNat) (by cases b <;> decide)
  refine ⟨hf, ?_⟩
  rw [bool, boolTensor, hr, Except.map, toNat_bne_zero]

theorem keyTensor_reads (k : Key) : (keyTensor k).Fits ∧ key (keyTensor k).value = .ok k := by
  obtain ⟨hf, hr⟩ := ofNats_reads [2] .uint32 [k.a.toNat, k.b.toNat] (by simp)
    (by simp) rfl (by simp) (by simpa using ⟨k.a.toNat_lt, k.b.toNat_lt⟩)
  refine ⟨hf, ?_⟩
  rw [key, keyTensor, hr]
  simp [Except.map]

theorem bytesTensor_reads {n : Nat} (v : Vector Byte n) (hn : n ≤ 4096) :
    (bytesTensor v).Fits ∧ bytes n (bytesTensor v).value = .ok v :=
  vector_reads v hn (fun b => b.isLt) (by simp)

theorem wordsTensor_reads {n : Nat} (v : Vector Word n) (hn : n ≤ 4096) :
    (wordsTensor v).Fits ∧ words n (wordsTensor v).value = .ok v :=
  vector_reads v hn (fun w => w.isLt) (by simp)

theorem boolsTensor_reads {n : Nat} (v : Vector Bool n) (hn : n ≤ 4096) :
    (boolsTensor v).Fits ∧ bools n (boolsTensor v).value = .ok v :=
  vector_reads v hn (fun b => by cases b <;> decide) toNat_bne_zero

/-! ## The screen -/

theorem rowOfPixels_getMsbD (r : Row) : rowOfPixels (fun x => r.getMsbD x) = r := by
  apply BitVec.eq_of_getMsbD_eq
  intro i hi
  simp only [rowOfPixels, BitVec.getMsbD_cast, BitVec.getMsbD_ofBoolListBE, List.getD_eq_getElem?_getD,
    List.getElem?_ofFn, dif_pos hi, Option.getD_some]

/-- The pixels of a row as they are written. -/
def pixels (row : Row) : List Nat := (List.range 64).map fun x => (row.getMsbD x).toNat

theorem length_pixels (row : Row) : (pixels row).length = 64 := by
  rw [pixels, List.length_map, List.length_range]

theorem pixels_le (row : Row) : ∀ n ∈ pixels row, n ≤ 1 := by
  intro n hn
  obtain ⟨x, -, rfl⟩ := List.mem_map.mp hn
  exact Bool.toNat_le _

theorem getElem?_pixels (row : Row) (x : Fin 64) :
    (pixels row)[x.val]? = some (row.getMsbD x).toNat := by
  rw [pixels, List.getElem?_map, List.getElem?_range x.isLt]
  rfl

theorem screenTensor_reads (s : Screen) :
    (screenTensor s).Fits ∧ screen (screenTensor s).value = .ok s := by
  have hlength : (s.toList.flatMap pixels).length = 2048 := by
    rw [length_flatMap length_pixels, Vector.length_toList]
  obtain ⟨hf, hr⟩ := ofNats_reads [32, 64] .bool _ (by simp) (by simp) hlength
    (by omega) (fun n hn => by
      obtain ⟨row, -, hn⟩ := List.mem_flatMap.mp hn
      exact Nat.lt_of_le_of_lt (pixels_le row n hn) (by decide))
  refine ⟨hf, ?_⟩
  have hpixel : ∀ (y : Fin 32) (x : Fin 64),
      ((s.toList.flatMap pixels).toArray[64 * y.val + x.val]?.getD 0 != 0) = s[y].getMsbD x := by
    intro y x
    rw [List.getElem?_toArray, getElem?_flatMap length_pixels _ _ x.isLt]
    simp only [Vector.getElem?_toList, Vector.getElem?_eq_getElem y.isLt,
      Option.bind_some, getElem?_pixels, Option.getD_some]
    exact toNat_bne_zero _
  have hrows : (fun y : Fin 32 => rowOfPixels fun x =>
      (s.toList.flatMap pixels).toArray[64 * y.val + x.val]?.getD 0 != 0) = fun y => s[y] := by
    funext y
    simp only [hpixel, rowOfPixels_getMsbD]
  rw [screen, show screenTensor s = .ofNats [32, 64] .bool (s.toList.flatMap pixels) from rfl, hr]
  simp only [Except.map, hrows]
  exact congrArg Except.ok Vector.ofFn_getElem

/-! ## Maps -/

/-- An entry of a map: its name, the bytes that are written under it and what they are read as. -/
structure Entry where
  name : String
  bytes : Bytes
  value : Value

def fieldsOf (es : List Entry) : Fields := es.map fun e => (some (asciiBytes e.name), e.value)

/-- A map without its header. -/
def written (es : List Entry) : Bytes := es.flatMap fun e => field e.name e.bytes

/-- Few different names that are read back as they are written. -/
def Plain (names : List String) : Prop :=
  names.length < 16 ∧ (names.map asciiBytes).Nodup ∧
    ∀ name ∈ names, (asciiBytes name).length < 2 ^ 32 ∧ Opening.isUtf8 (asciiBytes name)

instance : DecidablePred Plain := fun _ => inferInstanceAs (Decidable (_ ∧ _ ∧ _))

variable {r : Reader} {depth : Nat}

/-- Under different names it does not matter which entry counts. -/
theorem get_fieldsOf {es : List Entry} (hp : Plain (es.map Entry.name)) {e : Entry} (he : e ∈ es) :
    (fieldsOf es).get e.name = .ok e.value := by
  have hkeys : ((fieldsOf es).reverse.map Prod.fst).Nodup := by
    have hsome : (((es.map Entry.name).map asciiBytes).map some).Nodup :=
      List.Pairwise.map some (fun _ _ hne heq => hne (Option.some.inj heq)) hp.2.1
    simpa [fieldsOf, Function.comp_def] using (List.reverse_perm _).nodup_iff.mpr hsome
  obtain ⟨before, after, hsplit⟩ := List.append_of_mem
    (show (some (asciiBytes e.name), e.value) ∈ (fieldsOf es).reverse from
      List.mem_reverse.mpr (List.mem_map_of_mem he))
  rw [hsplit, List.map_append, List.nodup_append] at hkeys
  have hlookup : (fieldsOf es).reverse.lookup (some (asciiBytes e.name)) = some e.value :=
    List.lookup_eq_some_iff.mpr ⟨before, after, hsplit, fun p hmem => bne_iff_ne.mpr fun heq =>
      hkeys.2.2 p.1 (List.mem_map_of_mem hmem) p.1 (heq ▸ List.mem_cons_self) rfl⟩
  simp only [Fields.get, hlookup]

theorem checkNames_fieldsOf (es : List Entry) :
    (fieldsOf es).checkNames (es.map Entry.name) = .ok () := by
  refine if_pos (List.all_eq_true.mpr fun k hk => ?_)
  obtain ⟨e, he, rfl⟩ := List.mem_map.mp hk
  exact List.any_eq_true.mpr ⟨e.name, List.mem_map_of_mem he, beq_self_eq_true _⟩

/-- What the map of some entries is read as. -/
theorem map_reads (es : List Entry) (hp : Plain (es.map Entry.name))
    (h : ∀ e ∈ es, Reads (decode r depth) e.bytes e.value) :
    ∃ v fs, Reads (decode r (depth + 1)) (mapHeader es.length ++ written es) v ∧
      Fields.ofValue v = .ok fs ∧ (∀ e ∈ es, fs.get e.name = .ok e.value) ∧
      fs.checkNames (es.map Entry.name) = .ok () := by
  obtain ⟨hlength, -, htexts⟩ := id hp
  have hentries : ∀ i ∈ es.map fun e => (field e.name e.bytes, Value.text (asciiBytes e.name), e.value),
      Reads (entry (decode r depth)) i.1 i.2 := by
    intro i hi
    obtain ⟨e, he, rfl⟩ := List.mem_map.mp hi
    obtain ⟨hl, hu⟩ := htexts e.name (List.mem_map_of_mem he)
    exact entry_reads (decode_whole (Opening.encodeText_reads hl fun _ => hu)) (h e he)
  have hmap := decode_map (by simpa using hlength) hentries
  rw [List.length_map, List.flatMap_map] at hmap
  refine ⟨_, fieldsOf es, hmap, ?_, fun e he => get_fieldsOf hp he, checkNames_fieldsOf es⟩
  simp [Fields.ofValue, fieldsOf, nameOf?]

/-! ## The stack -/

def stackEntries (s : CallStack) : List Entry :=
  [⟨"data", (wordsTensor s.slots).encode, (wordsTensor s.slots).value⟩,
   ⟨"pointer", (byteTensor s.pointer).encode, (byteTensor s.pointer).value⟩]

def leavesOfStack (s : CallStack) : StackLeaves where
  slots := (wordsTensor s.slots).value
  pointer := (byteTensor s.pointer).value

theorem leavesOfStack_stack (s : CallStack) : (leavesOfStack s).stack = .ok s := by
  simp only [StackLeaves.stack, leavesOfStack, (wordsTensor_reads s.slots (by decide)).2,
    (byteTensor_reads s.pointer).2]
  rfl

theorem stackMap_reads (depth : Nat) (hr : Tensor.ReadBy r) (s : CallStack) : ∃ v,
    Reads (decode r (depth + 1)) (stackMap s) v ∧ StackLeaves.ofValue v = .ok (leavesOfStack s) := by
  have hp : Plain ((stackEntries s).map Entry.name) :=
    show Plain ["data", "pointer"] by decide
  have hreads : ∀ e ∈ stackEntries s, Reads (decode r depth) e.bytes e.value := by
    simp only [stackEntries, List.forall_mem_cons]
    exact ⟨Tensor.encode_reads hr (wordsTensor_reads _ (by decide)).1,
      Tensor.encode_reads hr (byteTensor_reads _).1, by simp⟩
  obtain ⟨v, fs, hv, hfields, hget, hnames⟩ := map_reads (stackEntries s) hp hreads
  simp only [stackEntries, List.forall_mem_cons] at hget
  obtain ⟨hdata, hpointer, -⟩ := hget
  refine ⟨v, ?_, ?_⟩
  · simpa [written, stackEntries, stackMap] using hv
  · simp only [stackEntries, List.map_cons, List.map_nil] at hnames
    simp only [StackLeaves.ofValue, hfields, bind, Except.bind, hdata, hpointer, hnames]
    rfl

/-! ## States -/

def stateEntries (s : State) (stackValue : Value) : List Entry :=
  [⟨"rng", (keyTensor s.rng).encode, (keyTensor s.rng).value⟩,
   ⟨"memory", (bytesTensor s.memory).encode, (bytesTensor s.memory).value⟩,
   ⟨"pc", (wordTensor s.pc).encode, (wordTensor s.pc).value⟩,
   ⟨"display", (screenTensor s.screen).encode, (screenTensor s.screen).value⟩,
   ⟨"stack", stackMap s.stack, stackValue⟩,
   ⟨"delay_timer", (byteTensor s.delay).encode, (byteTensor s.delay).value⟩,
   ⟨"sound_timer", (byteTensor s.sound).encode, (byteTensor s.sound).value⟩,
   ⟨"keypad", (boolsTensor s.keypad).encode, (boolsTensor s.keypad).value⟩,
   ⟨"V", (bytesTensor s.v).encode, (bytesTensor s.v).value⟩,
   ⟨"I", (wordTensor s.index).encode, (wordTensor s.index).value⟩,
   ⟨"vblank", (boolTensor s.ticked).encode, (boolTensor s.ticked).value⟩,
   ⟨"fault", (byteTensor s.fault).encode, (byteTensor s.fault).value⟩,
   ⟨"fault_info", (wordTensor s.detail).encode, (wordTensor s.detail).value⟩]

def leavesOf (s : State) : Leaves where
  rng := (keyTensor s.rng).value
  memory := (bytesTensor s.memory).value
  pc := (wordTensor s.pc).value
  screen := (screenTensor s.screen).value
  stack := leavesOfStack s.stack
  delay := (byteTensor s.delay).value
  sound := (byteTensor s.sound).value
  keypad := (boolsTensor s.keypad).value
  v := (bytesTensor s.v).value
  index := (wordTensor s.index).value
  ticked := (boolTensor s.ticked).value
  fault := (byteTensor s.fault).value
  detail := (wordTensor s.detail).value

theorem leavesOf_state (s : State) (dialect : Dialect) :
    (leavesOf s).state dialect = .ok { s with dialect } := by
  simp only [Leaves.state, leavesOf, bind, Except.bind, leavesOfStack_stack, (keyTensor_reads _).2,
    (bytesTensor_reads s.memory (by decide)).2, (wordTensor_reads _).2, (screenTensor_reads _).2,
    (byteTensor_reads _).2, (boolsTensor_reads s.keypad (by decide)).2,
    (bytesTensor_reads s.v (by decide)).2, (boolTensor_reads _).2]
  rfl

theorem fieldNames_plain : Plain fieldNames := by decide

theorem save_eq (s : State) (v : Value) :
    s.save = mapHeader (stateEntries s v).length ++ written (stateEntries s v) := by
  simp [State.save, stateEntries, written]

theorem stateEntries_reads (hr : Tensor.ReadBy r) {s : State} {v : Value}
    (hv : Reads (decode r depth) (stackMap s.stack) v) :
    ∀ e ∈ stateEntries s v, Reads (decode r depth) e.bytes e.value := by
  simp only [stateEntries, List.forall_mem_cons]
  have hword (w : Word) : Reads (decode r depth) (wordTensor w).encode (wordTensor w).value :=
    Tensor.encode_reads hr (wordTensor_reads w).1
  have hbyte (b : Byte) : Reads (decode r depth) (byteTensor b).encode (byteTensor b).value :=
    Tensor.encode_reads hr (byteTensor_reads b).1
  exact ⟨Tensor.encode_reads hr (keyTensor_reads _).1,
    Tensor.encode_reads hr (bytesTensor_reads _ (by decide)).1, hword _,
    Tensor.encode_reads hr (screenTensor_reads _).1, hv, hbyte _, hbyte _,
    Tensor.encode_reads hr (boolsTensor_reads _ (by decide)).1,
    Tensor.encode_reads hr (bytesTensor_reads _ (by decide)).1, hword _,
    Tensor.encode_reads hr (boolTensor_reads _).1, hbyte _, hword _, by simp⟩

/-- A snapshot is one value, and its leaves are those of the state. -/
theorem save_reads (hr : Tensor.ReadBy r) (s : State) : ∃ v,
    Reads (decode r maxDepth) s.save v ∧ Fields.ofValue v >>= Leaves.ofFields = .ok (leavesOf s) := by
  obtain ⟨stackValue, hstack, hleaves⟩ := stackMap_reads 1022 hr s.stack
  obtain ⟨v, fs, hv, hfields, hget, hnames⟩ := map_reads (stateEntries s stackValue)
    fieldNames_plain (stateEntries_reads hr hstack)
  rw [← save_eq] at hv
  simp only [stateEntries, List.forall_mem_cons] at hget
  obtain ⟨hrng, hmemory, hpc, hdisplay, hstackField, hdelay, hsound, hkeypad, hvs, hindex, hvblank,
    hfault, hinfo, -⟩ := hget
  have hnames : fs.checkNames fieldNames = .ok () := hnames
  refine ⟨v, hv, ?_⟩
  simp only [hfields, bind, Except.bind, Leaves.ofFields, hrng, hmemory, hpc, hdisplay, hstackField,
    hleaves, hdelay, hsound, hkeypad, hvs, hindex, hvblank, hfault, hinfo, hnames]
  rfl

theorem ofData_save (s : State) : Leaves.ofData s.save = .ok (leavesOf s) := by
  obtain ⟨v, hv, hleaves⟩ := save_reads Tensor.check_readBy s
  rw [Leaves.ofData, decodeAll_of_reads hv]
  exact hleaves

end Snapshot

theorem State.restore_save (s t : State) : t.restore s.save = .ok { s with dialect := t.dialect } := by
  simp only [restore, Snapshot.ofData_save, bind, Except.bind, Snapshot.leavesOf_state]

end ChipEight
