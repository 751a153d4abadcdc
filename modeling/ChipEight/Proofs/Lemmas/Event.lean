import ChipEight.Proofs.Lemmas.Access
import ChipEight.Proofs.Lemmas.Step

/-!
# Steps and input

A host steps a machine and hands it input between the steps, in any order.
-/

namespace ChipEight

/-- What a host hands to a machine between two steps. -/
inductive Input where
  | tick
  | setKey (k : Int) (pressed : Bool)
  | releaseAll
  | writeByte (a : Int) (value : Datum)

inductive Event where
  | step
  | input (e : Input)

def Input.isTick : Input → Bool
  | .tick => true
  | _ => false

namespace State

def accept (s : State) : Input → Except AccessError State
  | .tick => .ok s.tick
  | .setKey k pressed => s.setKey k pressed
  | .releaseAll => .ok s.releaseAll
  | .writeByte a value => s.writeByte a value

/-- Input that is refused leaves the machine alone. -/
def receive (s : State) (e : Input) : State := (s.accept e).toOption.getD s

def after (s : State) : Event → State
  | .step => s.step
  | .input e => s.receive e

def afterAll (s : State) (es : List Event) : State := es.foldl after s

variable {s t : State}

/-- Input goes to the memory, the keypad and the timers. -/
theorem accept_eq_ok {e : Input} (h : s.accept e = .ok t) : ∃ memory keypad delay sound ticked,
    t = { s with memory, keypad, delay, sound, ticked } := by
  cases e with
  | tick | releaseAll =>
      cases h
      exact ⟨_, _, _, _, _, rfl⟩
  | setKey k pressed =>
      obtain ⟨keypad, rfl⟩ := setKey_eq_ok h
      exact ⟨_, _, _, _, _, rfl⟩
  | writeByte a value =>
      obtain ⟨memory, rfl⟩ := writeByte_eq_ok h
      exact ⟨_, _, _, _, _, rfl⟩

theorem receive_frame (s : State) (e : Input) : ∃ memory keypad delay sound ticked,
    s.receive e = { s with memory, keypad, delay, sound, ticked } := by
  rw [receive]
  cases h : s.accept e with
  | error _ => exact ⟨_, _, _, _, _, rfl⟩
  | ok t => exact accept_eq_ok h

theorem receive_stack (e : Input) : (s.receive e).stack = s.stack := by
  obtain ⟨_, _, _, _, _, h⟩ := s.receive_frame e
  rw [h]

theorem receive_dialect (e : Input) : (s.receive e).dialect = s.dialect := by
  obtain ⟨_, _, _, _, _, h⟩ := s.receive_frame e
  rw [h]

theorem afterAll_dialect (es : List Event) : (s.afterAll es).dialect = s.dialect := by
  induction es generalizing s with
  | nil => rfl
  | cons e es ih =>
      refine ih.trans ?_
      cases e with
      | step => exact s.step_dialect
      | input e => exact receive_dialect e

theorem afterAll_append_step (es es' : List Event) :
    s.afterAll (es ++ .step :: es') = (s.afterAll es).step.afterAll es' := List.foldl_append ..

theorem receive_ticked (e : Input) : (s.receive e).ticked = (s.ticked || e.isTick) := by
  cases e with
  | tick => exact (Bool.or_true s.ticked).symm
  | releaseAll => exact (Bool.or_false s.ticked).symm
  | setKey k pressed =>
      refine Eq.trans ?_ (Bool.or_false s.ticked).symm
      rw [receive, accept]
      cases h : s.setKey k pressed with
      | error _ => rfl
      | ok t =>
          obtain ⟨keypad, rfl⟩ := setKey_eq_ok h
          rfl
  | writeByte a value =>
      refine Eq.trans ?_ (Bool.or_false s.ticked).symm
      rw [receive, accept]
      cases h : s.writeByte a value with
      | error _ => rfl
      | ok t =>
          obtain ⟨memory, rfl⟩ := writeByte_eq_ok h
          rfl

end State

end ChipEight
