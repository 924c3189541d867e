import Mathlib.Data.Option.NAry
import Mathlib.Tactic.SplitIfs

namespace dart.induction_var
open Option

/-- The invariant `offset + mult * def`; a constant has no definition. -/
structure Invariant (δ : Type) where
  offset : Int64
  mult : Int64
  definition : Option δ

/-- `InductionVar`, with the invariants where its constructor asserts them. -/
inductive InductionVar (δ : Type) where
  | invariant (x : Invariant δ)
  | linear (initial next : Invariant δ)
  | wrap_around (initial : Invariant δ) (next : InductionVar δ)
  | periodic (initial next : Invariant δ)

variable {δ : Type} {ρ : δ → Int64} {s : Int64}

namespace Invariant

/-- Applies a constant factor. -/
def scale (factor : Int64) (y : Invariant δ) : Invariant δ := ⟨factor * y.offset, factor * y.mult, y.definition⟩

variable [DecidableEq δ]

/-- `Add` and `Sub` of invariants: only for the same or just one definition. -/
def arith (op : Int64 → Int64 → Int64) (neg : Int64 → Int64) (x y : Invariant δ) : Option (Invariant δ) :=
  if x.definition = y.definition then
    some ⟨op x.offset y.offset, op x.mult y.mult, x.definition⟩
  else if y.mult = 0 then
    some ⟨op x.offset y.offset, x.mult, x.definition⟩
  else if x.mult = 0 then
    some ⟨op x.offset y.offset, neg y.mult, y.definition⟩
  else none

def add : Invariant δ → Invariant δ → Option (Invariant δ) := arith (· + ·) id

def sub : Invariant δ → Invariant δ → Option (Invariant δ) := arith (· - ·) (- ·)

def is_equal (x y : Invariant δ) : Bool :=
  x.offset == y.offset && x.mult == y.mult && (x.mult == 0 || x.definition == y.definition)

end Invariant

namespace InductionVar

/-- The recursion of `Add`, `Sub` and `Mul` over the operand that may vary. The stride of a
linear induction is treated on its own, and a failure on a part is one on the whole. -/
def combine (value stride : Invariant δ → Option (Invariant δ)) : InductionVar δ → Option (InductionVar δ)
  | .invariant x => (value x).map .invariant
  | .linear initial next => map₂ .linear (value initial) (stride next)
  | .wrap_around initial next => map₂ .wrap_around (value initial) (next.combine value stride)
  | .periodic initial next => map₂ .periodic (value initial) (value next)

/-- `IsConstant`, with the constant. -/
def is_constant : InductionVar δ → Option Int64
  | .invariant x => if x.mult = 0 then some x.offset else none
  | _ => none

/-- Applies a constant to any induction. -/
def scale (factor : Int64) : InductionVar δ → Option (InductionVar δ) :=
  combine (some ∘ Invariant.scale factor) (some ∘ Invariant.scale factor)

/-- `InductionVarAnalysis::Mul`, for a constant on the left or else on the right. -/
def mul (x y : InductionVar δ) : Option (InductionVar δ) :=
  match x.is_constant, y.is_constant with
  | some factor, _ => y.scale factor
  | none, some factor => x.scale factor
  | none, none => none

/-- The cases of `Add` and `Sub`. Only one of two inductions may be other than linear. -/
def arith (op : Invariant δ → Invariant δ → Option (Invariant δ)) (stride : Invariant δ → Option (Invariant δ)) :
    InductionVar δ → InductionVar δ → Option (InductionVar δ)
  | .invariant x, y => y.combine (op x) stride
  | x, .invariant y => x.combine (op · y) some
  | .linear initial next, .linear initial' next' => map₂ .linear (op initial initial') (op next next')
  | _, _ => none

variable [DecidableEq δ]

/-- `InductionVarAnalysis::Add`. -/
def add : InductionVar δ → InductionVar δ → Option (InductionVar δ) := arith Invariant.add some

/-- `InductionVarAnalysis::Sub`. A stride is subtracted from zero. -/
def sub : InductionVar δ → InductionVar δ → Option (InductionVar δ) := arith Invariant.sub (Invariant.sub ⟨0, 0, none⟩)

/-- `InductionVar::IsEqual`. -/
def is_equal : InductionVar δ → InductionVar δ → Bool
  | .invariant x, .invariant y => x.is_equal y
  | .linear initial next, .linear initial' next' => initial.is_equal initial' && next.is_equal next'
  | .wrap_around initial next, .wrap_around initial' next' => initial.is_equal initial' && next.is_equal next'
  | .periodic initial next, .periodic initial' next' => initial.is_equal initial' && next.is_equal next'
  | _, _ => false

end InductionVar

section
variable (ρ : δ → Int64)

/-- The value where `ρ` gives those of the definitions. Words are numbers modulo `2 ^ 64`. -/
def Invariant.value (x : Invariant δ) : Int64 := x.offset + x.mult * x.definition.elim 0 ρ

/-- The value in an iteration of the loop. -/
def InductionVar.value : InductionVar δ → Nat → Int64
  | .invariant x, _ => x.value ρ
  | .linear initial next, k => initial.value ρ + .ofNat k * next.value ρ
  | .wrap_around initial _, 0 => initial.value ρ
  | .wrap_around _ next, k + 1 => next.value k
  | .periodic initial next, k => if k % 2 = 0 then initial.value ρ else next.value ρ

end

namespace Invariant
variable {x y z : Invariant δ}

lemma value_of_mult_eq_zero (h : x.mult = 0) : x.value ρ = x.offset := by
  rw [value, h, Int64.zero_mul, Int64.add_zero]

lemma value_scale (c : Int64) : (y.scale c).value ρ = c * y.value ρ := by
  simp only [value, scale]
  grind

variable [DecidableEq δ]

lemma value_arith {op : Int64 → Int64 → Int64} {neg : Int64 → Int64} (hop : ∀ a b, op a b = a + s * b)
    (hneg : ∀ a, neg a = s * a) (h : x.arith op neg y = some z) : z.value ρ = x.value ρ + s * y.value ρ := by
  unfold arith at h
  split_ifs at h with hsame hy hx <;> cases h
  · simp only [value, ← hsame, hop]
    grind
  · rw [value_of_mult_eq_zero hy, value, value]
    grind
  · rw [value_of_mult_eq_zero hx, value, value, hop, hneg]
    grind

lemma value_add (h : x.add y = some z) : z.value ρ = x.value ρ + 1 * y.value ρ := value_arith (by simp) (by simp) h

lemma value_sub (h : x.sub y = some z) : z.value ρ = x.value ρ + -1 * y.value ρ := value_arith (by grind) (by grind) h

lemma value_eq_of_is_equal (h : x.is_equal y = true) : x.value ρ = y.value ρ := by
  simp only [is_equal, Bool.and_eq_true, Bool.or_eq_true, beq_iff_eq] at h
  obtain ⟨⟨hoff, hmult⟩, h0 | hdefinition⟩ := h
  · rw [value_of_mult_eq_zero h0, value_of_mult_eq_zero (hmult ▸ h0), hoff]
  · rw [value, value, hoff, hmult, hdefinition]

end Invariant

namespace InductionVar
variable {x y z : InductionVar δ} {c : Int64}

/-- An affine function of the values commutes with the iterations. -/
lemma value_combine {f g : Int64 → Int64} {value stride : Invariant δ → Option (Invariant δ)}
    (hval : ∀ {x z}, value x = some z → z.value ρ = f (x.value ρ))
    (hstride : ∀ {x z}, stride x = some z → z.value ρ = g (x.value ρ))
    (haffine : ∀ a b n, f (a + n * b) = f a + n * g b) (h : x.combine value stride = some z) (k : Nat) :
    z.value ρ k = f (x.value ρ k) := by
  induction x generalizing z k with
  | invariant x =>
    obtain ⟨_, hx, rfl⟩ := map_eq_some_iff.mp h
    exact hval hx
  | linear initial next =>
    obtain ⟨_, _, hinit, hnext, rfl⟩ := map₂_eq_some_iff.mp h
    rw [InductionVar.value, InductionVar.value, hval hinit, hstride hnext, haffine]
  | wrap_around initial next ih =>
    obtain ⟨_, _, hinit, hnext, rfl⟩ := map₂_eq_some_iff.mp h
    cases k with
    | zero => exact hval hinit
    | succ k => exact ih hnext k
  | periodic initial next =>
    obtain ⟨_, _, hinit, hnext, rfl⟩ := map₂_eq_some_iff.mp h
    rw [InductionVar.value, InductionVar.value, hval hinit, hval hnext, apply_ite f]

lemma value_scale (h : y.scale c = some z) (k : Nat) : z.value ρ k = c * y.value ρ k := by
  have hscale {x z : Invariant δ} (h : (some ∘ Invariant.scale c) x = some z) : z.value ρ = c * x.value ρ := by
    cases h
    exact Invariant.value_scale c
  exact value_combine hscale hscale (by grind) h k

lemma value_of_is_constant (h : x.is_constant = some c) (k : Nat) : x.value ρ k = c := by
  cases x with
  | invariant x =>
    obtain ⟨hmult, hoff⟩ := ite_none_right_eq_some.mp h
    exact (Invariant.value_of_mult_eq_zero hmult).trans (some.inj hoff)
  | _ => cases h

lemma value_mul (h : x.mul y = some z) (k : Nat) : z.value ρ k = x.value ρ k * y.value ρ k := by
  unfold mul at h
  split at h
  · next hx => rw [value_scale h, value_of_is_constant hx]
  · next hy => rw [value_scale h, value_of_is_constant hy, Int64.mul_comm]
  · cases h

lemma value_arith {op : Invariant δ → Invariant δ → Option (Invariant δ)}
    {stride : Invariant δ → Option (Invariant δ)}
    (hop : ∀ {x y z}, op x y = some z → z.value ρ = x.value ρ + s * y.value ρ)
    (hstride : ∀ {y z}, stride y = some z → z.value ρ = s * y.value ρ) (h : x.arith op stride y = some z) (k : Nat) :
    z.value ρ k = x.value ρ k + s * y.value ρ k := by
  unfold arith at h
  split at h
  · next x => exact value_combine (f := (x.value ρ + s * ·)) hop hstride (by grind) h k
  · next y _ => exact value_combine (f := (· + s * y.value ρ)) (g := id) hop (by simp) (by grind) h k
  · obtain ⟨_, _, hinit, hnext, rfl⟩ := map₂_eq_some_iff.mp h
    simp only [value, hop hinit, hop hnext]
    grind
  · cases h

variable [DecidableEq δ]

lemma value_add (h : x.add y = some z) (k : Nat) : z.value ρ k = x.value ρ k + y.value ρ k := by
  rw [value_arith Invariant.value_add (by simp) h, Int64.one_mul]

lemma value_sub (h : x.sub y = some z) (k : Nat) : z.value ρ k = x.value ρ k - y.value ρ k := by
  have hstride {y z : Invariant δ} (h : Invariant.sub ⟨0, 0, none⟩ y = some z) : z.value ρ = -1 * y.value ρ := by
    rw [Invariant.value_sub h, Invariant.value_of_mult_eq_zero rfl, Int64.zero_add]
  rw [value_arith Invariant.value_sub hstride h]
  grind

lemma value_eq_of_is_equal (h : x.is_equal y = true) (k : Nat) : x.value ρ k = y.value ρ k := by
  fun_induction is_equal x y generalizing k with
  | case1 x y => exact Invariant.value_eq_of_is_equal h
  | case2 initial next initial' next' | case4 initial next initial' next' =>
    rw [Bool.and_eq_true] at h
    rw [value, value, Invariant.value_eq_of_is_equal h.1, Invariant.value_eq_of_is_equal h.2]
  | case3 initial next initial' next' ih =>
    rw [Bool.and_eq_true] at h
    cases k with
    | zero => exact Invariant.value_eq_of_is_equal h.1
    | succ k => exact ih h.2 k
  | case5 => cases h

/-- What the analysis computes from two inductions is the induction of the computed values. -/
theorem arithmetic_homomorphism (x y : InductionVar δ) :
    (∀ z, x.add y = some z → ∀ ρ k, z.value ρ k = x.value ρ k + y.value ρ k) ∧
    (∀ z, x.sub y = some z → ∀ ρ k, z.value ρ k = x.value ρ k - y.value ρ k) ∧
    (∀ z, x.mul y = some z → ∀ ρ k, z.value ρ k = x.value ρ k * y.value ρ k) ∧
    (x.is_equal y = true → ∀ ρ k, x.value ρ k = y.value ρ k) :=
  ⟨fun _ h _ => value_add h, fun _ h _ => value_sub h, fun _ h _ => value_mul h, fun h _ => value_eq_of_is_equal h⟩

/-- Seven before an induction that starts with the definition. -/
def lateStart : InductionVar Unit := .wrap_around ⟨7, 0, none⟩ (.linear ⟨0, 1, some ()⟩ ⟨3, 0, none⟩)

theorem arithmetic_homomorphism_lateStart : ∃ z, lateStart.mul (.invariant ⟨2, 0, none⟩) = some z ∧
    ∀ ρ k, z.value ρ k = lateStart.value ρ k * InductionVar.value ρ (.invariant ⟨2, 0, none⟩) k :=
  ⟨_, rfl, (arithmetic_homomorphism lateStart (.invariant ⟨2, 0, none⟩)).2.2.1 _ rfl⟩

end InductionVar
end dart.induction_var
