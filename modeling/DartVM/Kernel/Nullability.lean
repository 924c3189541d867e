import Mathlib.Logic.Basic

namespace dart.kernel

inductive Nullability where
  | undetermined
  | nullable
  | non_nullable
  | legacy
deriving DecidableEq

def unite_nullabilities (a b : Nullability) : Nullability :=
  if a = .nullable ∨ b = .nullable then .nullable
  else if a = .legacy ∨ b = .legacy then .legacy
  else if a = .undetermined ∨ b = .undetermined then .undetermined
  else .non_nullable

end dart.kernel
