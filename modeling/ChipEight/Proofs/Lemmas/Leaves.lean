import ChipEight.Proofs.Lemmas.Access
import ChipEight.Proofs.Lemmas.Snapshot

/-!
# Leaves with the shapes of a state

The leaves of a snapshot make up a state exactly if each is a tensor of the shape and the element type of its
field (`Leaves.state_iff_typed`).
-/

namespace ChipEight.Snapshot

open MessagePack

/-! ## Single leaves -/

def IsTensor (shape : List Nat) (e : ElementType) (v : Value) : Prop :=
  ∃ bytes, Tensor.ofValue? v = some ⟨shape, e, bytes⟩

section Leaf

variable {shape : List Nat} {e : ElementType} {n : Nat} {v : Value}

theorem nats_iff : (∃ ns, nats shape e v = .ok ns) ↔ IsTensor shape e v := by
  rw [nats, IsTensor]
  cases Tensor.ofValue? v with
  | none => simp
  | some t =>
      obtain ⟨shape', e', bytes⟩ := t
      by_cases h : shape' = shape ∧ e' = e
      · simp [h]
      · simp [h]

theorem nat_iff : (∃ n, nat e v = .ok n) ↔ IsTensor [] e v := exists_map_eq_ok.trans nats_iff

theorem byte_iff : (∃ b, byte v = .ok b) ↔ IsTensor [] .uint8 v := exists_map_eq_ok.trans nat_iff

theorem word_iff : (∃ w, word v = .ok w) ↔ IsTensor [] .uint16 v := exists_map_eq_ok.trans nat_iff

theorem bool_iff : (∃ b, bool v = .ok b) ↔ IsTensor [] .bool v := exists_map_eq_ok.trans nat_iff

theorem bytes_iff : (∃ bs, bytes n v = .ok bs) ↔ IsTensor [n] .uint8 v := exists_map_eq_ok.trans nats_iff

theorem words_iff : (∃ ws, words n v = .ok ws) ↔ IsTensor [n] .uint16 v := exists_map_eq_ok.trans nats_iff

theorem bools_iff : (∃ bs, bools n v = .ok bs) ↔ IsTensor [n] .bool v := exists_map_eq_ok.trans nats_iff

theorem key_iff : (∃ k, key v = .ok k) ↔ IsTensor [2] .uint32 v := exists_map_eq_ok.trans nats_iff

theorem screen_iff : (∃ s, screen v = .ok s) ↔ IsTensor [32, 64] .bool v := exists_map_eq_ok.trans nats_iff

end Leaf

/-! ## All leaves -/

@[mk_iff]
structure StackLeaves.Typed (l : StackLeaves) : Prop where
  slots : IsTensor [16] .uint16 l.slots
  pointer : IsTensor [] .uint8 l.pointer

@[mk_iff]
structure Leaves.Typed (l : Leaves) : Prop where
  rng : IsTensor [2] .uint32 l.rng
  memory : IsTensor [4096] .uint8 l.memory
  pc : IsTensor [] .uint16 l.pc
  screen : IsTensor [32, 64] .bool l.screen
  stack : l.stack.Typed
  delay : IsTensor [] .uint8 l.delay
  sound : IsTensor [] .uint8 l.sound
  keypad : IsTensor [16] .bool l.keypad
  v : IsTensor [16] .uint8 l.v
  index : IsTensor [] .uint16 l.index
  ticked : IsTensor [] .bool l.ticked
  fault : IsTensor [] .uint8 l.fault
  detail : IsTensor [] .uint16 l.detail

theorem StackLeaves.stack_iff_typed {l : StackLeaves} : (∃ s, l.stack = .ok s) ↔ l.Typed := by
  simp only [stack, exists_bind_eq_ok, typed_iff, ← words_iff, ← byte_iff, pure, Except.pure,
    Except.ok.injEq, exists_eq', and_true, exists_and_right]

theorem Leaves.state_iff_typed {l : Leaves} {dialect : Dialect} :
    (∃ s, l.state dialect = .ok s) ↔ l.Typed := by
  simp only [state, exists_bind_eq_ok, typed_iff, ← StackLeaves.stack_iff_typed, ← key_iff, ← bytes_iff,
    ← word_iff, ← screen_iff, ← byte_iff, ← bools_iff, ← bool_iff, pure, Except.pure,
    Except.ok.injEq, exists_eq', and_true, exists_and_right]

/-! ## Data -/

/-- A reader that knows no extensions but tensors. -/
def tensorsOnly : Reader where
  checkExtension tag payload :=
    if tag = 1 then Tensor.check tag payload else .error .malformedExtension

/-- All extensions in the data are tensors, and if a leaf is there for each field of a state, they are tensors of
the shapes and the element types of the fields. -/
structure Typed (data : Bytes) : Prop where
  tensors : ∀ e, decodeAll tensorsOnly data = .error e → e ≠ .malformedExtension ∧ e ≠ .unknownElementType
  leaves : ∀ l, Leaves.ofData data = .ok l → l.Typed

theorem tensorsOnly_readBy : Tensor.ReadBy tensorsOnly := fun _ => Tensor.check_payload

theorem leavesOf_typed (s : State) : (leavesOf s).Typed :=
  Leaves.state_iff_typed.mp ⟨_, leavesOf_state s {}⟩

theorem save_typed (s : State) : Typed s.save where
  tensors e h := by
    obtain ⟨v, hv, -⟩ := save_reads tensorsOnly_readBy s
    cases (decodeAll_of_reads hv).symm.trans h
  leaves l h := by
    cases (ofData_save s).symm.trans h
    exact leavesOf_typed s

end ChipEight.Snapshot
