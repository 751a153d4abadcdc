import ChipEight.Proofs.Lemmas.CallStack
import ChipEight.Proofs.Lemmas.Event

/-!
# Calls and returns

A return address stays on the stack as long as the stack does not go down below it, whatever is called and
handed in meanwhile. So the return that goes down below it goes on behind the call, with the stack of
before the call (`call_returns`).
-/

namespace ChipEight

/-- The addresses are on the stack, and nothing lies below them. -/
def CallStack.Keeps (c : CallStack) (as : List Word) : Prop := ∃ bs, c.Holds (as ++ bs)

namespace State

variable {s : State} {as : List Word}

/-! ## One step -/

/-- A step that does not fault pushes the address behind its instruction, or drops the last one, or leaves
the stack alone. -/
theorem step_holds (h : s.fault = 0) (hstep : s.step.fault = 0) (hs : s.stack.Holds as) :
    s.step.stack.Holds (as ++ [s.pc + 2]) ∨
      (∃ bs b, as = bs ++ [b] ∧ s.step.stack.Holds bs) ∨ s.step.stack.Holds as := by
  have hout := step_outcome h
  generalize s.step = t at hout hstep ⊢
  cases hout with
  | unfetched | undefined | trapped => exact absurd hstep (stopped_fault_ne_zero _)
  | @executed w i hw hi hf =>
      rw [effect_stack]
      cases i with
      | call nnn => exact .inl (hs.push (hs.pointer ▸ pointer_of_call hf) _)
      | ret =>
          rcases as.eq_nil_or_concat' with rfl | ⟨bs, b, rfl⟩
          · exact absurd (BitVec.eq_of_toNat_eq hs.pointer) (pointer_of_ret hf)
          · exact .inr (.inl ⟨bs, b, rfl, hs.drop⟩)
      | _ => exact .inr (.inr hs)

/-! ## Runs with input -/

theorem afterAll_mem (s : State) (es : List Event) : s.afterAll es ∈ es.scanl after s :=
  List.mem_of_getLast? List.getLast?_scanl

theorem step_keeps (h : s.fault = 0) (hstep : s.step.fault = 0) (hs : s.stack.Keeps as)
    (hlevel : as.length ≤ s.step.stack.pointer.toNat) : s.step.stack.Keeps as := by
  obtain ⟨bs, hbs⟩ := hs
  rcases step_holds h hstep hbs with hpush | ⟨cs, b, heq, hdrop⟩ | hsame
  · exact ⟨bs ++ [s.pc + 2], List.append_assoc as bs _ ▸ hpush⟩
  · -- What is left begins with the addresses, since it is long enough.
    have hlen : as.length ≤ cs.length := hdrop.pointer ▸ hlevel
    obtain ⟨ds, rfl⟩ := List.prefix_of_prefix_length_le (as.prefix_append bs) ⟨[b], heq.symm⟩ hlen
    exact ⟨ds, hdrop⟩
  · exact ⟨bs, hsame⟩

/-- As long as no step faults and the stack does not go down below them, the addresses stay. -/
theorem afterAll_keeps (es : List Event) (hs : s.stack.Keeps as)
    (h : ∀ t ∈ es.scanl after s, t.fault = 0 ∧ as.length ≤ t.stack.pointer.toNat) :
    (s.afterAll es).stack.Keeps as := by
  induction es generalizing s with
  | nil => exact hs
  | cons e es ih =>
      rw [List.scanl_cons, List.forall_mem_cons] at h
      obtain ⟨⟨hrun, -⟩, hrest⟩ := h
      have hnext := hrest (s.after e) (by cases es <;> simp)
      refine ih ?_ hrest
      cases e with
      | step => exact step_keeps hrun hnext.1 hs hnext.2
      | input e => exact (receive_stack e).symm ▸ hs

/-- A machine calls a subroutine with room on its stack, whose free slots are clear. It goes on with any
steps, none of which faults, and any input, and stays above the level of the call until it executes a
return just there. This goes on behind the call, and the stack is what it was before. -/
theorem call_returns (s : State) (nnn : Target) (es : List Event) (h : s.fault = 0)
    (hroom : s.stack.pointer.toNat ≤ 15)
    (hclear : ∀ i : Fin 16, s.stack.pointer.toNat ≤ i.val → s.stack.slots.get i = 0)
    (hcall : s.opcode? = some (Instr.call nnn).toWord)
    (hinside : ∀ t ∈ es.scanl after s.step,
      t.fault = 0 ∧ s.stack.pointer.toNat + 1 ≤ t.stack.pointer.toNat)
    (hret : (s.step.afterAll es).opcode? = some Instr.ret.toWord)
    (hlevel : (s.step.afterAll es).stack.pointer.toNat = s.stack.pointer.toNat + 1) :
    (s.step.afterAll es).step.fault = 0 ∧ (s.step.afterAll es).step.pc = s.pc + 2 ∧
      (s.step.afterAll es).step.stack = s.stack := by
  obtain ⟨as, hs⟩ : ∃ as, s.stack.Holds as := ⟨_, CallStack.holds_of_cleared (by omega) hclear⟩
  have hlen := hs.pointer
  have hpush : s.step.stack.Holds (as ++ [s.pc + 2]) := by
    rw [step_of_instr h hcall (by simp [trap?, CallStack.isFull]; omega), effect_stack]
    exact hs.push (by omega) _
  obtain ⟨bs, hend⟩ : (s.step.afterAll es).stack.Keeps (as ++ [s.pc + 2]) :=
    afterAll_keeps es ⟨[], by simpa using hpush⟩ (by simpa [← hlen] using hinside)
  -- At the level of the call nothing lies above the return address any more.
  obtain rfl : bs = [] := by
    have := hend.pointer
    simp only [List.length_append, List.length_cons, List.length_nil] at this
    exact List.eq_nil_of_length_eq_zero (by omega)
  rw [List.append_nil] at hend
  have hrun : (s.step.afterAll es).fault = 0 := (hinside _ (s.step.afterAll_mem es)).1
  rw [step_of_instr hrun hret (by simpa [trap?, CallStack.isEmpty] using hend.pointer_ne_zero)]
  refine ⟨(effect_fault _ _).trans hrun, ?_, ?_⟩
  · rw [effect_pc]
    exact hend.top
  · rw [effect_stack]
    exact hend.drop.unique hs

/-- Calls a subroutine that calls another one. -/
def nestedCall : State :=
  { rng := ⟨0, 0⟩
    memory := Memory.zeroed.writeBytes 0x200 [0x22, 0x04, 0x00, 0x00, 0x22, 0x08, 0x00, 0xEE, 0x00, 0xEE] }

/-- The inner call and its return, with input. -/
def innerCall : List Event :=
  [.step, .input .tick, .step, .input (.setKey 3 true), .input (.writeByte 0x300 (.int 7))]

theorem call_returns_nestedCall :
    nestedCall.opcode? = some (Instr.call 0x204).toWord ∧
      (∀ t ∈ innerCall.scanl after nestedCall.step, t.fault = 0 ∧ 1 ≤ t.stack.pointer.toNat) ∧
      (nestedCall.step.afterAll innerCall).opcode? = some Instr.ret.toWord ∧
      (nestedCall.step.afterAll innerCall).stack.pointer.toNat = 1 ∧
      (nestedCall.step.afterAll innerCall).step.pc = 0x202 ∧
      (nestedCall.step.afterAll innerCall).step.stack = nestedCall.stack := by
  have hcall : nestedCall.opcode? = some (Instr.call 0x204).toWord := by decide +kernel
  have hinside : ∀ t ∈ innerCall.scanl after nestedCall.step,
      t.fault = 0 ∧ 1 ≤ t.stack.pointer.toNat := by decide +kernel
  have hret : (nestedCall.step.afterAll innerCall).opcode? = some Instr.ret.toWord := by decide +kernel
  have hlevel : (nestedCall.step.afterAll innerCall).stack.pointer.toNat = 1 := by decide +kernel
  have h := call_returns nestedCall 0x204 innerCall rfl (by decide) (by decide) hcall hinside hret hlevel
  exact ⟨hcall, hinside, hret, hlevel, h.2⟩

end State

end ChipEight
