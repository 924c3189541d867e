import Mathlib.Data.List.Basic

namespace dart

/-- Why a modelled VM function does not return: a violated `ASSERT`, an access
past the end of an array, a recursion deeper than the bound it was given, an
allocation larger than the heap allows, or signed arithmetic that overflows. -/
inductive Fault where
  | assertion
  | out_of_bounds
  | out_of_fuel
  | out_of_memory
  | overflow
deriving DecidableEq, Repr

/-- A computation that may end in a fault. -/
abbrev Checked := Except Fault

/-- `ASSERT(condition)`. -/
def check (condition : Bool) : Checked Unit :=
  if condition then .ok () else .error .assertion

@[simp] lemma check_true : check true = .ok () := rfl

@[simp] lemma check_false : check false = .error .assertion := rfl

variable {ε α β : Type}

@[simp] lemma ok_bind (a : α) (f : α → Except ε β) : (Except.ok a >>= f) = f a := rfl

@[simp] lemma error_bind (e : ε) (f : α → Except ε β) : ((Except.error e : Except ε α) >>= f) = .error e := rfl

variable {x : Except ε α}

@[simp] lemma pure_eq_ok (a : α) : (pure a : Except ε α) = .ok a := rfl

@[simp] lemma bind_ok_right (x : Except ε α) : (x >>= fun a => .ok a) = x := by
  cases x <;> rfl

@[simp] lemma check_eq_ok_iff {condition : Bool} : check condition = .ok () ↔ condition = true := by
  cases condition <;> simp [check]

/-- An assertion that holds. -/
lemma check_bind {α : Type} {p : Prop} [Decidable p] (h : p) (f : Unit → Checked α) :
    (check (decide p) >>= f) = f () := by
  rw [decide_eq_true h, check_true, ok_bind]

/-- A successful sequence of two computations has a successful first part. -/
lemma bind_eq_ok_iff {f : α → Except ε β} {b : β} : (x >>= f) = .ok b ↔ ∃ a, x = .ok a ∧ f a = .ok b := by
  cases x <;> simp

lemma toOption_eq_some_iff {a : α} : x.toOption = some a ↔ x = .ok a := by
  cases x <;> simp [Except.toOption]

end dart
