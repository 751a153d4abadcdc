/-!
# Clocks

A clock is the list of its readings to come, in seconds. The last one is repeated for ever, and a clock
without readings stands at zero.
-/

namespace ChipEight

structure Clock where
  readings : List Float := []

namespace Clock

/-- The current reading, and the clock after it. -/
def read (c : Clock) : Float × Clock :=
  match c.readings with
  | [] => (0, c)
  | [t] => (t, c)
  | t :: rest => (t, ⟨rest⟩)

end Clock

end ChipEight
