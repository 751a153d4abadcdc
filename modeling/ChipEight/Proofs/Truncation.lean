import ChipEight.Proofs.Lemmas.Snapshot

/-!
# Snapshots that are cut off or run on

A reader that is given more bytes says the same of them, unless it had run out of bytes (`Steady`). So no part of a
written value passes for a value, and a snapshot that is cut off anywhere or has anything behind it is refused
(`restore_refuses_cut_or_extended`).
-/

namespace ChipEight

namespace MessagePack

variable {α β : Type}

/-! ## Readers that look no further than they read -/

/-- What a reader says of some bytes it also says where more bytes follow, unless the first ones were too few. -/
def Steady (p : Parse α) : Prop :=
  ∀ xs ys, p xs = .error .truncated ∨ p (xs ++ ys) = (p xs).map fun x => (x.1, x.2 ++ ys)

namespace Steady

@[simp]
theorem ok (a : α) : Steady fun bs => .ok (a, bs) := fun _ _ => .inr rfl

@[simp]
theorem error (e : DecodeError) : Steady (α := α) fun _ => .error e := fun _ _ => .inr rfl

theorem ite {c : Prop} [Decidable c] {p q : Parse α} (hp : Steady p) (hq : Steady q) :
    Steady fun bs => if c then p bs else q bs := by
  by_cases h : c
  · simpa only [if_pos h] using hp
  · simpa only [if_neg h] using hq

theorem seq {p : Parse α} {q : α × Bytes → Except DecodeError (β × Bytes)} (hp : Steady p)
    (hq : ∀ a, Steady fun bs => q (a, bs)) : Steady fun bs => p bs >>= q := by
  intro xs ys
  rcases hp xs ys with h | h
  · left
    show p xs >>= q = _
    rw [h]
    rfl
  · show p xs >>= q = _ ∨ p (xs ++ ys) >>= q = (p xs >>= q).map _
    rw [h]
    cases p xs with
    | error e => exact .inr rfl
    | ok x => exact hq x.1 x.2 ys

/-- A check of what was read takes no bytes. -/
theorem check {p : Parse α} (c : Except DecodeError Unit) (hp : Steady p) :
    Steady fun bs => c >>= fun _ => p bs := by
  cases c with
  | error e => exact .error e
  | ok _ => exact hp

theorem cons {q : Byte → Parse α} (hq : ∀ b, Steady (q b)) : Steady fun bs =>
    match bs with
    | [] => .error .truncated
    | b :: bs => q b bs := by
  intro xs ys
  cases xs with
  | nil => exact .inl rfl
  | cons b xs => exact hq b xs ys

/-- A value that is cut off is told by nothing but the missing bytes. -/
theorem truncated_of_reads {p : Parse α} {bs cut : Bytes} {a : α} (hp : Steady p) (h : Reads p bs a)
    (hcut : cut <+: bs) (hne : cut ≠ bs) : p cut = .error .truncated := by
  obtain ⟨more, rfl⟩ := hcut
  refine (hp cut more).resolve_right fun hlonger => hne ?_
  have hall : p (cut ++ more) = .ok (a, []) := by simpa using h []
  rw [hall] at hlonger
  cases hshort : p cut with
  | error e => simp [hshort, Except.map] at hlonger
  | ok x => simp_all [Except.map]

end Steady

/-! ## The readers of the format -/

theorem takeExactly_steady (n : Nat) : Steady (takeExactly n) := by
  intro xs ys
  by_cases hn : n ≤ xs.length
  · right
    simp [takeExactly, hn, List.take_append_of_le_length, List.drop_append_of_le_length, Except.map]
  · left
    simp [takeExactly]
    omega

theorem natural_steady (k : Nat) : Steady (natural k) := (takeExactly_steady k).seq fun _ => .ok _

theorem signed_steady (k : Nat) : Steady (signed k) := (natural_steady k).seq fun _ => .ok _

theorem count_steady {one : Parse α} (h : Steady one) (n : Nat) : Steady (count one n) := by
  induction n with
  | zero => exact .ok []
  | succ n ih => exact h.seq fun a => ih.seq fun as => .ok (a :: as)

namespace Opening

variable (r : Reader)

theorem text_steady (n : Nat) : Steady (text r n) :=
  (takeExactly_steady n).seq fun _ => .ite (.error _) (.ok _)

theorem binary_steady (n : Nat) : Steady (binary n) := (takeExactly_steady n).seq fun _ => .ok _

theorem float_steady (k : Nat) : Steady (float k) := (takeExactly_steady k).seq fun _ => .ok _

theorem extension_steady (n : Nat) : Steady (extension r n) :=
  (signed_steady 1).seq fun _ => (takeExactly_steady n).seq fun _ => .check _ (.ok _)

theorem sized_steady (k : Nat) {body : Nat → Parse Opening} (h : ∀ n, Steady (body n)) :
    Steady (sized k body) := (natural_steady k).seq h

theorem counted_steady (k : Nat) (opening : Nat → Opening) : Steady (counted k opening) :=
  sized_steady k fun n => .ok (opening n)

theorem ofNatural_steady (k : Nat) : Steady (ofNatural k) := (natural_steady k).seq fun _ => .ok _

theorem ofSigned_steady (k : Nat) : Steady (ofSigned k) := (signed_steady k).seq fun _ => .ok _

theorem marked_steady (marker : Nat) : Steady (marked r marker) := by
  have htext (k : Nat) : Steady (sized k (text r)) := sized_steady k (text_steady r)
  have hbinary (k : Nat) : Steady (sized k binary) := sized_steady k binary_steady
  have hextension (k : Nat) : Steady (sized k (extension r)) := sized_steady k (extension_steady r)
  unfold marked
  split <;> simp [htext, hbinary, hextension, extension_steady, float_steady, ofNatural_steady, ofSigned_steady,
    counted_steady]

theorem read_steady : Steady (read r) :=
  .cons fun _ => .ite (.ok _) (.ite (.ok _) (.ite (.ok _) (.ite (text_steady r _)
    (.ite (marked_steady r _) (.ok _)))))

end Opening

/-! ## Values -/

theorem entry_steady {one : Parse Value} (h : Steady one) : Steady (entry one) := by
  refine h.seq fun key => h.seq fun value => ?_
  cases key with
  | text | binary => exact .ok _
  | _ => exact .error _

/-- A container that is not empty is read part by part, if there is room for its parts. -/
theorem close_steady {one? : Option (Parse Value)} (h : ∀ one ∈ one?, Steady one) (opening : Opening) :
    Steady (close one? opening) := by
  cases opening with
  | whole v => exact .ok v
  | array n =>
      cases n with
      | zero => exact .ok _
      | succ n =>
          cases one? with
          | none => exact .error _
          | some one => exact (count_steady (h one rfl) (n + 1)).seq fun _ => .ok _
  | map n =>
      cases n with
      | zero => exact .ok _
      | succ n =>
          cases one? with
          | none => exact .error _
          | some one => exact (count_steady (entry_steady (h one rfl)) (n + 1)).seq fun _ => .ok _

theorem decode_steady (r : Reader) (depth : Nat) : Steady (decode r depth) := by
  induction depth with
  | zero => exact (Opening.read_steady r).seq (close_steady nofun)
  | succ depth ih =>
      exact (Opening.read_steady r).seq (close_steady fun one hone => Option.mem_some_iff.mp hone ▸ ih)

/-! ## Single values -/

section Whole

variable {r : Reader} {bs : Bytes} {v : Value} (h : Reads (decode r maxDepth) bs v)
include h

theorem decodeAll_of_prefix {cut : Bytes} (hcut : cut <+: bs) (hne : cut ≠ bs) :
    decodeAll r cut = .error .truncated := by
  rw [decodeAll, (decode_steady r maxDepth).truncated_of_reads h hcut hne]
  rfl

theorem decodeAll_append {extra : Bytes} (hextra : extra ≠ []) :
    decodeAll r (bs ++ extra) = .error .trailing := by
  have hrest : extra.isEmpty = false := List.isEmpty_eq_false_iff.mpr hextra
  simp only [decodeAll, h extra, bind, Except.bind, hrest]
  rfl

end Whole

end MessagePack

/-! ## Snapshots -/

namespace State

/-- Whatever the machine that it is restored into, a snapshot from which bytes are missing at the end is refused for
that, and one with bytes behind it for these. -/
theorem restore_refuses_cut_or_extended (s t : State) :
    (∀ cut, cut <+: s.save → cut ≠ s.save → t.restore cut = .error (.decoding .truncated)) ∧
      ∀ extra, extra ≠ [] → t.restore (s.save ++ extra) = .error (.decoding .trailing) := by
  obtain ⟨v, hv, -⟩ := Snapshot.save_reads Tensor.check_readBy s
  refine ⟨fun cut hcut hne => ?_, fun extra hextra => ?_⟩
  · rw [restore, Snapshot.Leaves.ofData, MessagePack.decodeAll_of_prefix hv hcut hne]
    rfl
  · rw [restore, Snapshot.Leaves.ofData, MessagePack.decodeAll_append hv hextra]
    rfl

theorem save_ne_nil (s : State) : s.save ≠ [] := by
  simp [save, MessagePack.mapHeader]

/-- Of a snapshot of the state before the first step the last byte is missing, or all bytes are, or a byte follows. -/
theorem restore_refuses_cut_or_extended_fresh :
    let s := fresh ⟨0, 0⟩ {} 0x200
    (s.save.dropLast <+: s.save ∧ s.save.dropLast ≠ s.save ∧
      s.restore s.save.dropLast = .error (.decoding .truncated)) ∧
    ([] <+: s.save ∧ [] ≠ s.save ∧ s.restore [] = .error (.decoding .truncated)) ∧
    [0xC0] ≠ ([] : Bytes) ∧ s.restore (s.save ++ [0xC0]) = .error (.decoding .trailing) := by
  intro s
  obtain ⟨hcut, hextended⟩ := restore_refuses_cut_or_extended s s
  have hdropped : s.save.dropLast ≠ s.save := by
    intro h
    have hlength := congrArg List.length h
    have hpos := List.length_pos_iff.mpr s.save_ne_nil
    rw [List.length_dropLast] at hlength
    omega
  have hnil := s.save_ne_nil.symm
  have hextra : [0xC0] ≠ ([] : Bytes) := List.cons_ne_nil _ _
  exact ⟨⟨List.dropLast_prefix _, hdropped, hcut _ (List.dropLast_prefix _) hdropped⟩,
    ⟨List.nil_prefix, hnil, hcut _ List.nil_prefix hnil⟩, hextra, hextended _ hextra⟩

end State

end ChipEight
