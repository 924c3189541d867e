import Mathlib.Data.Option.Basic

namespace dart.lockstep
variable {α β : Type}

/-- The state after a number of steps of a deterministic machine, if it has not stopped. -/
def run (step : α → Option α) : Nat → α → Option α
  | 0, s => some s
  | n + 1, s => (run step n s).bind step

end dart.lockstep
