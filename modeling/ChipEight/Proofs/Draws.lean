import ChipEight.Proofs.Footprint
import ChipEight.Proofs.Lemmas.Event

/-!
# Draws and ticks

In a dialect whose draws wait for the display a draw uses up a tick. So however steps and input are mixed,
draws and ticks take turns (`draws_take_turns`).
-/

namespace ChipEight

def Event.isTick : Event → Bool
  | .input e => e.isTick
  | .step => false

def tickCount (es : List Event) : Nat := es.countP Event.isTick

theorem tick_mem_of_tickCount_pos {es : List Event} (h : 0 < tickCount es) : .input .tick ∈ es := by
  obtain ⟨e, he, htick⟩ := List.countP_pos_iff.mp h
  cases e with
  | step => cases htick
  | input e =>
      cases e with
      | tick => exact he
      | setKey | releaseAll | writeByte => cases htick

namespace State

variable {s : State}

/-! ## Draws that are completed -/

/-- The next step draws: it executes a draw that does not fault, and goes on behind it. -/
def Draws (s : State) : Prop := s.Fetches .draw ∧ s.step.fault = 0 ∧ s.step.pc = s.pc + 2

instance (s : State) : Decidable s.Draws := inferInstanceAs (Decidable (_ ∧ _))

/-- What a step does where no draw is completed. -/
structure Waits (s : State) : Prop where
  not_draws : ¬s.Draws
  ticked : s.step.ticked = s.ticked
  /-- A draw that waits or faults changes at most the fault and its detail. -/
  rest : s.Fetches .draw → s.step = { s with fault := s.step.fault, detail := s.step.detail }

theorem waits_of_step_eq (h : s.step = s) : s.Waits where
  not_draws := fun hdraws => by
    have hpc := hdraws.2.2
    rw [h] at hpc
    bv_omega
  ticked := by rw [h]
  rest := fun _ => by rw [h]

section Draw

variable {x y : Reg} {n : Fin 16} (h : s.fault = 0) (hw : s.opcode? = some (Instr.draw x y n).toWord)
  (htrap : s.trap? (.draw x y n) = none)
include h hw htrap

theorem step_of_drawWaits (hwait : s.drawWaits = true) : s.step = s := by
  have hadvanced : s.advanced.drawWaits = true := hwait
  rw [step_of_instr h hw htrap, effect, if_pos hadvanced, rewind, advanced, BitVec.add_sub_cancel]

theorem draws_of_not_drawWaits (hwait : s.drawWaits = false) : s.Draws ∧ s.step.ticked = false := by
  have hadvanced : s.advanced.drawWaits = false := hwait
  rw [Draws, step_of_instr h hw htrap, effect_fault, effect_pc, effect_ticked, hadvanced]
  exact ⟨⟨(fetches_iff hw).mpr rfl, h, rfl⟩, rfl⟩

end Draw

theorem draws_or_waits (s : State) :
    (s.Draws ∧ s.drawWaits = false ∧ s.step.ticked = false) ∨ s.Waits := by
  by_cases hs : s.fault = 0
  · have hout := step_outcome hs
    by_cases hf : s.step.fault = 0
    · generalize ht : s.step = t at hout
      cases hout with
      | unfetched | undefined | trapped => exact absurd (ht ▸ hf) (stopped_fault_ne_zero _)
      | @executed w i hw hi htrap =>
          obtain rfl := Instr.toWord_of_ofWord? hi
          by_cases hd : i.op = .draw
          · obtain ⟨x, y, n, rfl⟩ := Instr.exists_of_op_draw hd
            rw [← ht]
            cases hwait : s.drawWaits with
            | true => exact .inr (waits_of_step_eq (step_of_drawWaits hs hw htrap hwait))
            | false =>
                obtain ⟨hdraws, hticked⟩ := draws_of_not_drawWaits hs hw htrap hwait
                exact .inl ⟨hdraws, rfl, hticked⟩
          · have hat : ¬s.Fetches .draw := (fetches_iff hw).not.mpr hd
            refine .inr ⟨fun h => hat h.1, ?_, fun h => absurd h hat⟩
            rw [ht]
            exact effect_same (p := .ticked) hd
    · have heq := hout.eq_of_fault hs hf
      exact .inr ⟨fun h => hf h.2.1, by rw [heq], fun _ => heq⟩
  · exact .inr (waits_of_step_eq (step_of_halted hs))

/-! ## Ticks that are used up -/

def drawCount (s : State) : List Event → Nat
  | [] => 0
  | .step :: es => (if s.Draws then 1 else 0) + s.step.drawCount es
  | .input e :: es => (s.receive e).drawCount es

theorem Draws.uses_tick (hdraws : s.Draws) (h : s.dialect.drawsAwaitTick = true) :
    s.ticked = true ∧ s.step.ticked = false := by
  rcases s.draws_or_waits with ⟨-, hwait, hticked⟩ | hwaits
  · exact ⟨by simpa [drawWaits, h] using hwait, hticked⟩
  · exact absurd hdraws hwaits.not_draws

theorem waits_of_not_draws (h : ¬s.Draws) : s.Waits :=
  s.draws_or_waits.resolve_left fun hdraws => h hdraws.1

/-- A completed draw has used up a tick, one of the list or the one that had passed before it. -/
theorem drawCount_add_ticked (h : s.dialect.drawsAwaitTick = true) (es : List Event) :
    s.drawCount es + (s.afterAll es).ticked.toNat ≤ tickCount es + s.ticked.toNat := by
  induction es generalizing s with
  | nil => simp [drawCount, afterAll]
  | cons e es ih =>
      rw [show s.afterAll (e :: es) = (s.after e).afterAll es from rfl, tickCount, List.countP_cons]
      cases e with
      | step =>
          have hrest := ih (s := s.step) (s.step_dialect ▸ h)
          rw [drawCount, after, Event.isTick]
          by_cases hdraws : s.Draws
          · obtain ⟨hbefore, hafter⟩ := hdraws.uses_tick h
            rw [hafter, tickCount] at hrest
            rw [if_pos hdraws, hbefore]
            simp only [Bool.toNat_false, Bool.toNat_true] at hrest ⊢
            omega
          · rw [(waits_of_not_draws hdraws).ticked, tickCount] at hrest
            rw [if_neg hdraws]
            omega
      | input e =>
          have hrest := ih (s := s.receive e) ((receive_dialect e).symm ▸ h)
          have hor : (s.ticked || e.isTick).toNat ≤ s.ticked.toNat + if e.isTick then 1 else 0 := by
            cases s.ticked <;> cases e.isTick <;> decide
          rw [receive_ticked, tickCount] at hrest
          rw [drawCount, after, Event.isTick]
          omega

/-- Where draws await a tick they are no more than the ticks, but for one that had passed before. Between two
draws there is a tick. A draw that is not completed, since it waits or faults, leaves the tick and the screen
alone, as it leaves everything but the fault and its detail. -/
theorem draws_take_turns (s : State) (h : s.dialect.drawsAwaitTick = true) :
    (∀ es, s.drawCount es ≤ tickCount es + s.ticked.toNat) ∧
      (∀ es es', (s.afterAll es).Draws → (s.afterAll (es ++ .step :: es')).Draws →
        .input .tick ∈ es') ∧
      ∀ es, (s.afterAll es).Fetches .draw → ¬(s.afterAll es).Draws →
        (s.afterAll es).step =
          { s.afterAll es with
            fault := (s.afterAll es).step.fault, detail := (s.afterAll es).step.detail } := by
  refine ⟨fun es => Nat.le_trans (Nat.le_add_right ..) (drawCount_add_ticked h es),
    fun es es' hfirst hsecond => ?_, fun es hat hno => (waits_of_not_draws hno).rest hat⟩
  have hd (es : List Event) : (s.afterAll es).dialect.drawsAwaitTick = true := by
    rwa [afterAll_dialect]
  have hnext : (s.afterAll es).step.dialect.drawsAwaitTick = true := by
    rw [step_dialect]
    exact hd es
  have hused := (hfirst.uses_tick (hd _)).2
  have hticked := (hsecond.uses_tick (hd _)).1
  -- The first draw leaves no tick over, and the second one finds one.
  have hcount := drawCount_add_ticked hnext es'
  rw [← afterAll_append_step, hticked, hused] at hcount
  simp only [Bool.toNat_false, Bool.toNat_true] at hcount
  exact tick_mem_of_tickCount_pos (by omega)

/-- Draws the first byte of its program for ever. -/
def drawsItself : State :=
  { rng := ⟨0, 0⟩
    memory := Memory.zeroed.writeBytes 0x200 [0xD0, 0x11, 0x12, 0x00]
    index := 0x200
    ticked := true
    dialect := .cosmac }

/-- From behind a draw to the next one, which is put off twice. -/
def nextFrame : List Event :=
  [.step, .step, .input (.setKey 3 true), .step, .input .tick]

theorem draws_take_turns_drawsItself :
    drawsItself.dialect.drawsAwaitTick = true ∧ drawsItself.drawCount (.step :: nextFrame ++ [.step]) = 2 ∧
      2 ≤ tickCount (.step :: nextFrame ++ [.step]) + drawsItself.ticked.toNat ∧
      drawsItself.Draws ∧ (drawsItself.afterAll (.step :: nextFrame)).Draws ∧
      .input .tick ∈ nextFrame := by
  obtain ⟨hcount, hbetween, -⟩ := draws_take_turns drawsItself rfl
  have hfirst : drawsItself.Draws := by decide +kernel
  have hsecond : (drawsItself.afterAll (.step :: nextFrame)).Draws := by decide +kernel
  have htwo : drawsItself.drawCount (.step :: nextFrame ++ [.step]) = 2 := by decide +kernel
  have hle := hcount (.step :: nextFrame ++ [.step])
  rw [htwo] at hle
  exact ⟨rfl, htwo, hle, hfirst, hsecond, hbetween [] nextFrame hfirst hsecond⟩

end State

end ChipEight
