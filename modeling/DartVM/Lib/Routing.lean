import Mathlib.Logic.Equiv.Basic

namespace dart.routing
variable {Loc Val : Type}

/-- A routing sends every location to the location whose contents it still has
to receive. The routing is realised by `current` for the wanted contents `goal`
when following it once gives `goal` everywhere: locations routed to themselves
already hold what they should. -/
def Realises (current : Loc → Val) (route : Loc → Loc) (goal : Loc → Val) : Prop :=
  current ∘ route = goal

variable {current goal : Loc → Val} {route : Loc → Loc} (h : Realises current route goal)
include h

lemma Realises.apply (l : Loc) : current (route l) = goal l := congrFun h l

/-- Nothing is left to do once the routing is the identity. -/
lemma Realises.finished (hid : ∀ l, route l = l) : current = goal := by
  funext l
  rw [← h.apply l, hid l]

variable [DecidableEq Loc]

/-- Copying into a location nobody else is routed to satisfies that location
and keeps every other obligation. -/
lemma Realises.move (d : Loc) (hfree : ∀ l, l ≠ d → route l ≠ d) :
    Realises (Function.update current d (current (route d))) (Function.update route d d) goal := by
  funext l
  by_cases hl : l = d
  · subst hl
    simpa using h.apply l
  · have hne := hfree l hl
    simpa [Function.update_of_ne hl, Function.update_of_ne hne] using h.apply l

/-- Exchanging the contents of two locations is undone by renaming them in the
routing, whatever the routing is. -/
lemma Realises.swap (a b : Loc) : Realises (current ∘ Equiv.swap a b) (Equiv.swap a b ∘ route) goal := by
  funext l
  simpa using h.apply l

end dart.routing
