import ChipEight.MessagePack.Decode
import Mathlib

/-!
# Reading what was written as MessagePack

`Reads p bs a` says that a reader takes exactly `bs` off the front of any input and gives `a`. It
composes like the readers do, so that every written value gets one lemma.
-/

namespace ChipEight.MessagePack

variable {α β : Type}

/-! ## Readers of parts -/

def Reads (p : Parse α) (bs : Bytes) (a : α) : Prop := ∀ rest, p (bs ++ rest) = .ok (a, rest)

theorem Reads.done (a : α) : Reads (fun bs => .ok (a, bs)) [] a := fun _ => rfl

theorem Reads.seq {p : Parse α} {q : α → Parse β} {bs cs : Bytes} {a : α} {b : β}
    (hp : Reads p bs a) (hq : Reads (q a) cs b) :
    Reads (fun xs => do let (a, xs) ← p xs; q a xs) (bs ++ cs) b := by
  intro rest
  have h : p (bs ++ cs ++ rest) = .ok (a, cs ++ rest) := by rw [List.append_assoc]; exact hp _
  show (p (bs ++ cs ++ rest) >>= fun x => q x.1 x.2) = _
  rw [h]
  exact hq rest

theorem Reads.map {p : Parse α} {bs : Bytes} {a : α} (f : α → β) (hp : Reads p bs a) :
    Reads (fun xs => do let (a, xs) ← p xs; return (f a, xs)) bs (f a) := by
  intro rest
  show (p (bs ++ rest) >>= fun x => Except.ok (f x.1, x.2)) = _
  rw [hp]
  rfl

theorem takeExactly_reads {n : Nat} {bs : Bytes} (h : bs.length = n) :
    Reads (takeExactly n) bs bs := by
  intro rest
  simp [takeExactly, ← h]

/-- Each item is given with its bytes. -/
theorem count_reads {one : Parse α} {items : List (Bytes × α)}
    (h : ∀ i ∈ items, Reads one i.1 i.2) :
    Reads (count one items.length) (items.flatMap Prod.fst) (items.map Prod.snd) := by
  induction items with
  | nil => exact .done []
  | cons i items ih =>
      have hi : Reads one i.1 i.2 := h i List.mem_cons_self
      have hrest := ih fun j hj => h j (List.mem_cons_of_mem i hj)
      exact hi.seq (q := fun a bs =>
        count one items.length bs >>= fun x => .ok (a :: x.1, x.2)) (hrest.map (i.2 :: ·))

/-! ## Big-endian numbers -/

theorem length_bigEndian (k n : Nat) : (bigEndian k n).length = k := by
  induction k generalizing n with
  | zero => rfl
  | succ k ih => simp [bigEndian, ih]

theorem ofBigEndian_bigEndian (k n : Nat) : ofBigEndian (bigEndian k n) = n % 256 ^ k := by
  induction k generalizing n with
  | zero => simp [bigEndian, ofBigEndian, Nat.mod_one]
  | succ k ih =>
      have hfold : ofBigEndian (bigEndian k (n / 256) ++ [.ofNat 8 n]) =
          256 * ofBigEndian (bigEndian k (n / 256)) + n % 256 := by
        simp [ofBigEndian]
      rw [bigEndian, hfold, ih, Nat.pow_succ', Nat.mod_mul]
      omega

theorem natural_reads {k n : Nat} (h : n < 256 ^ k) : Reads (natural k) (bigEndian k n) n := by
  have := (takeExactly_reads (length_bigEndian k n)).map ofBigEndian
  rwa [ofBigEndian_bigEndian, Nat.mod_eq_of_lt h] at this

/-! ## Headers -/

namespace Opening

variable {r : Reader}

theorem read_cons (r : Reader) (b : Byte) (bs : Bytes) : read r (b :: bs) =
    if b.toNat < 0x80 then .ok (.whole (.int b.toNat), bs)
    else if b.toNat < 0x90 then .ok (.map (b.toNat - 0x80), bs)
    else if b.toNat < 0xA0 then .ok (.array (b.toNat - 0x90), bs)
    else if b.toNat < 0xC0 then text r (b.toNat - 0xA0) bs
    else if b.toNat < 0xE0 then marked r b.toNat bs
    else .ok (.whole (.int (b.toNat - 0x100)), bs) := rfl

theorem sized_reads {k n : Nat} {body : Nat → Parse Opening} {bs : Bytes} {o : Opening}
    (hn : n < 256 ^ k) (h : Reads (body n) bs o) :
    Reads (sized k body) (bigEndian k n ++ bs) o := (natural_reads hn).seq h

/-- A marker in front of a reader. -/
theorem read_of_marker {p : Parse Opening} {marker : Byte} {bs : Bytes} {o : Opening}
    (hm : ∀ xs, read r (marker :: xs) = p xs) (h : Reads p bs o) : Reads (read r) (marker :: bs) o := by
  intro rest
  rw [List.cons_append, hm]
  exact h rest

/-- The three sizes of a header all lead to the same body. -/
theorem read_sizedHeader (body : Nat → Parse Opening) {one? : Option Byte} {two four : Byte}
    {n : Nat} {bs : Bytes} {o : Opening}
    (h₁ : ∀ one ∈ one?, ∀ xs, read r (one :: xs) = sized 1 body xs)
    (h₂ : ∀ xs, read r (two :: xs) = sized 2 body xs)
    (h₄ : ∀ xs, read r (four :: xs) = sized 4 body xs)
    (hn : n < 2 ^ 32) (h : Reads (body n) bs o) :
    Reads (read r) (sizedHeader one? two four n ++ bs) o := by
  have hlong : Reads (read r)
      ((if n < 2 ^ 16 then two :: bigEndian 2 n else four :: bigEndian 4 n) ++ bs) o := by
    split
    · exact read_of_marker h₂ (sized_reads (by omega) h)
    · exact read_of_marker h₄ (sized_reads (by omega) h)
  cases one? with
  | none => exact hlong
  | some one =>
      simp only [sizedHeader]
      split
      · exact read_of_marker (h₁ one rfl) (sized_reads (by omega) h)
      · exact hlong

/-- The markers that stand for what follows and hold nothing of it. -/
theorem read_marked {marker : Byte} (h : 0xC0 ≤ marker.toNat ∧ marker.toNat < 0xE0) (xs : Bytes) :
    read r (marker :: xs) = marked r marker.toNat xs := by
  obtain ⟨h₁, h₂⟩ := h
  rw [read_cons, if_neg (by omega), if_neg (by omega), if_neg (by omega), if_neg (by omega),
    if_pos h₂]

/-! ## Values without parts -/

theorem text_reads {bs : Bytes} (hu : r.textsAreUtf8 = true → isUtf8 bs = true) :
    Reads (text r bs.length) bs (.whole (.text bs)) := by
  intro rest
  have hok : (r.textsAreUtf8 && !isUtf8 bs) = false := by
    cases ht : r.textsAreUtf8 <;> simp_all
  simp only [text, takeExactly_reads rfl rest]
  show (if (r.textsAreUtf8 && !isUtf8 bs) = true then _ else _) = _
  rw [hok]
  rfl

theorem encodeText_reads {bs : Bytes} (hn : bs.length < 2 ^ 32)
    (hu : r.textsAreUtf8 = true → isUtf8 bs = true) :
    Reads (read r) (encodeText bs) (.whole (.text bs)) := by
  simp only [encodeText, textHeader]
  split
  · refine read_of_marker (p := text r bs.length) (fun xs => ?_) (text_reads hu)
    have hm : (BitVec.ofNat 8 (0xA0 + bs.length)).toNat = 0xA0 + bs.length := by
      rw [BitVec.toNat_ofNat]
      omega
    rw [read_cons, hm, if_neg (by omega), if_neg (by omega), if_neg (by omega), if_pos (by omega),
      Nat.add_sub_cancel_left]
  · exact read_sizedHeader (text r)
      (fun _ h _ => by cases h; exact read_marked (by decide) _)
      (fun _ => read_marked (by decide) _) (fun _ => read_marked (by decide) _) hn (text_reads hu)

theorem binary_reads (bs : Bytes) : Reads (binary bs.length) bs (.whole (.binary bs)) :=
  (takeExactly_reads rfl).map fun taken => Opening.whole (.binary taken)

theorem encodeBinary_reads {bs : Bytes} (hn : bs.length < 2 ^ 32) :
    Reads (read r) (encodeBinary bs) (.whole (.binary bs)) :=
  read_sizedHeader binary (fun _ h _ => by cases h; exact read_marked (by decide) _)
    (fun _ => read_marked (by decide) _) (fun _ => read_marked (by decide) _) hn (binary_reads bs)

theorem ofNatural_reads {k n : Nat} (h : n < 256 ^ k) :
    Reads (ofNatural k) (bigEndian k n) (.whole (.int n)) :=
  (natural_reads h).map fun n : Nat => Opening.whole (.int n)

theorem encodeNat_reads {n : Nat} (hn : n < 2 ^ 64) :
    Reads (read r) (encodeNat n) (.whole (.int n)) := by
  simp only [encodeNat]
  split
  · intro rest
    have hm : (BitVec.ofNat 8 n).toNat = n := by
      rw [BitVec.toNat_ofNat]
      omega
    rw [List.singleton_append, read_cons, hm, if_pos (by omega)]
  split
  · exact read_of_marker (fun _ => read_marked (by decide) _) (ofNatural_reads (by omega))
  split
  · exact read_of_marker (fun _ => read_marked (by decide) _) (ofNatural_reads (by omega))
  split
  · exact read_of_marker (fun _ => read_marked (by decide) _) (ofNatural_reads (by omega))
  · exact read_of_marker (fun _ => read_marked (by decide) _) (ofNatural_reads (by omega))

/-- Tags up to `0x7F` are their own value. -/
theorem tag_reads {tag : Byte} (h : tag.toNat < 0x80) : Reads (signed 1) [tag] tag.toNat := by
  have htag : [tag] = bigEndian 1 tag.toNat := by simp [bigEndian]
  have hn : Reads (natural 1) [tag] tag.toNat := htag ▸ natural_reads tag.isLt
  have := hn.map fun n : Nat => if n < 2 ^ (8 * 1 - 1) then (n : Int) else n - 2 ^ (8 * 1)
  rwa [if_pos (show tag.toNat < 2 ^ (8 * 1 - 1) from h)] at this

theorem extension_reads {tag : Byte} {payload : Bytes} (ht : tag.toNat < 0x80)
    (hc : r.checkExtension tag.toNat payload = .ok ()) :
    Reads (extension r payload.length) (tag :: payload) (.whole (.extension tag.toNat payload)) := by
  intro rest
  have hrest : Reads (takeExactly payload.length) payload payload := takeExactly_reads rfl
  simp only [extension, List.cons_append]
  rw [show tag :: (payload ++ rest) = [tag] ++ (payload ++ rest) from rfl, tag_reads ht]
  show (takeExactly payload.length (payload ++ rest) >>= fun x => _) = _
  rw [hrest]
  show (r.checkExtension tag.toNat payload >>= fun _ => _) = _
  rw [hc]
  rfl

theorem encodeExtension_reads {tag : Byte} {payload : Bytes} (hn : payload.length < 2 ^ 32)
    (ht : tag.toNat < 0x80) (hc : r.checkExtension tag.toNat payload = .ok ()) :
    Reads (read r) (encodeExtension tag payload) (.whole (.extension tag.toNat payload)) := by
  have h := extension_reads ht hc
  have hfix : ∀ marker : Byte, 0xC0 ≤ marker.toNat ∧ marker.toNat < 0xE0 →
      marked r marker.toNat = extension r payload.length →
      Reads (read r) (marker :: tag :: payload) (.whole (.extension tag.toNat payload)) :=
    fun marker hm he => read_of_marker (fun xs => (read_marked hm xs).trans (congrFun he xs)) h
  simp only [encodeExtension, extensionHeader]
  split
  · rename_i hn
    exact hfix 0xD4 (by decide) (by rw [hn]; rfl)
  · rename_i hn
    exact hfix 0xD5 (by decide) (by rw [hn]; rfl)
  · rename_i hn
    exact hfix 0xD6 (by decide) (by rw [hn]; rfl)
  · rename_i hn
    exact hfix 0xD7 (by decide) (by rw [hn]; rfl)
  · rename_i hn
    exact hfix 0xD8 (by decide) (by rw [hn]; rfl)
  · exact read_sizedHeader (extension r)
      (fun _ h _ => by cases h; exact read_marked (by decide) _)
      (fun _ => read_marked (by decide) _) (fun _ => read_marked (by decide) _) hn h

/-! ## Containers -/

theorem arrayHeader_reads {n : Nat} (hn : n < 16) :
    Reads (read r) (arrayHeader n) (.array n) := by
  intro rest
  have hm : (BitVec.ofNat 8 (0x90 + n)).toNat = 0x90 + n := by
    rw [BitVec.toNat_ofNat]
    omega
  rw [arrayHeader, if_pos hn, List.singleton_append, read_cons, hm, if_neg (by omega),
    if_neg (by omega), if_pos (by omega), Nat.add_sub_cancel_left]

theorem mapHeader_reads {n : Nat} (hn : n < 16) : Reads (read r) (mapHeader n) (.map n) := by
  intro rest
  have hm : (BitVec.ofNat 8 (0x80 + n)).toNat = 0x80 + n := by
    rw [BitVec.toNat_ofNat]
    omega
  rw [mapHeader, if_pos hn, List.singleton_append, read_cons, hm, if_neg (by omega),
    if_pos (by omega), Nat.add_sub_cancel_left]

end Opening

/-! ## Values -/

variable {r : Reader} {depth : Nat}

theorem decode_whole {bs : Bytes} {v : Value} (h : Reads (Opening.read r) bs (.whole v)) :
    Reads (decode r depth) bs v := by
  rw [← List.append_nil bs]
  cases depth with
  | zero => exact h.seq (q := close none) (.done v)
  | succ depth => exact h.seq (q := close (some (decode r depth))) (.done v)

theorem decode_array {items : List (Bytes × Value)} (hn : items.length < 16)
    (h : ∀ i ∈ items, Reads (decode r depth) i.1 i.2) :
    Reads (decode r (depth + 1)) (arrayHeader items.length ++ items.flatMap Prod.fst)
      (.array (items.map Prod.snd)) := by
  refine (Opening.arrayHeader_reads hn).seq (q := close (some (decode r depth))) ?_
  cases items with
  | nil => exact .done _
  | cons i items => exact (count_reads h).map Value.array

theorem entry_reads {one : Parse Value} {keyBytes bs : Bytes} {key : Bytes} {v : Value}
    (hk : Reads one keyBytes (.text key)) (hv : Reads one bs v) :
    Reads (entry one) (keyBytes ++ bs) (.text key, v) := by
  intro rest
  rw [entry, List.append_assoc, hk]
  show (one (bs ++ rest) >>= fun x => _) = _
  rw [hv]
  rfl

theorem decode_map {entries : List (Bytes × Value × Value)} (hn : entries.length < 16)
    (h : ∀ e ∈ entries, Reads (entry (decode r depth)) e.1 e.2) :
    Reads (decode r (depth + 1)) (mapHeader entries.length ++ entries.flatMap Prod.fst)
      (.map (entries.map Prod.snd)) := by
  refine (Opening.mapHeader_reads hn).seq (q := close (some (decode r depth))) ?_
  cases entries with
  | nil => exact .done _
  | cons e entries => exact (count_reads h).map Value.map

theorem decodeAll_of_reads {bs : Bytes} {v : Value} (h : Reads (decode r maxDepth) bs v) :
    decodeAll r bs = .ok v := by
  have h := h []
  rw [List.append_nil] at h
  simp only [decodeAll, h]
  rfl

end ChipEight.MessagePack
