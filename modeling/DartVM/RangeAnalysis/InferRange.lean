import DartVM.RangeAnalysis.BinaryOp

namespace dart.range_analysis
open int64

inductive Representation where
  | kTagged
  | kUnboxedInt32
  | kUnboxedUint32
  | kUnboxedInt64
deriving DecidableEq, Repr

/-- `RepresentationToRangeSize`, which overapproximates unsigned words as `int64`. -/
def Representation.to_range_size : Representation → RangeSize
  | .kTagged => .smi
  | .kUnboxedInt32 => .int32
  | .kUnboxedUint32 => .int64
  | .kUnboxedInt64 => .int64

/-- `BinaryIntegerOpInstr` without its inputs. The constructors of the `uint32` and
`int64` operations mark them as truncating, and truncating operations never overflow. -/
structure BinaryIntegerOp where
  op_kind : Token
  representation : Representation
  can_overflow : Bool
  is_truncating : Bool
  truncating : representation = .kUnboxedUint32 ∨ representation = .kUnboxedInt64 → is_truncating = true
  overflow : is_truncating = true → can_overflow = false

namespace BinaryIntegerOp

/-- `BinarySmiOpInstr` as its constructor leaves it. -/
def binary_smi_op (op_kind : Token) : BinaryIntegerOp where
  op_kind := op_kind
  representation := .kTagged
  can_overflow := true
  is_truncating := false
  truncating := by simp
  overflow := by simp

variable (self : BinaryIntegerOp)

def mark_truncating : BinaryIntegerOp :=
  { self with
    is_truncating := true
    can_overflow := false
    truncating := fun _ => rfl
    overflow := fun _ => rfl }

/-- The argument is false for a truncating operation. -/
def set_can_overflow (overflow : Bool) (h : self.is_truncating = true → overflow = false) : BinaryIntegerOp :=
  { self with can_overflow := overflow, overflow := h }

/-- The representation of the second input. Shifts of unsigned words take an `int64` count. -/
def right_representation : Representation :=
  match self.representation, self.op_kind with
  | .kUnboxedUint32, .kSHL | .kUnboxedUint32, .kSHR | .kUnboxedUint32, .kUSHR => .kUnboxedInt64
  | representation, _ => representation

end BinaryIntegerOp

variable {δ : Type}

namespace RangeBoundary

def is_unknown : RangeBoundary δ → Bool
  | .unknown => true
  | _ => false

end RangeBoundary

namespace Range

/-- The constant that replaces an operation with this range, if there is one. -/
def singleton : Range δ → Option Int64
  | ⟨.constant min, .constant max⟩ => if min = max then some min else none
  | _ => none

end Range

namespace Definitions
variable (self : Definitions δ)

/-- `Range::Fits` -/
def fits (range : Range δ) (size : RangeSize) : Checked Bool := do
  let min ← self.lower_bound range.min
  if self.clamp_constant size min ≠ min then
    return false
  let max ← self.upper_bound range.max
  return self.clamp_constant size max = max

/-- `Range::Clamp` -/
def clamp_range (range : Range δ) (size : RangeSize) : Range δ :=
  ⟨self.clamp size range.min, self.clamp size range.max⟩

/-- `BinaryIntegerOpInstr::InferRangeHelper`, which returns the operation with its new
overflow flag and the range that it stores. -/
def infer_range_helper (instr : BinaryIntegerOp) (left_defn : Option δ) (left_range right_range : Option (Range δ))
    (range : Range δ) : Checked (BinaryIntegerOp × Range δ) :=
  match left_range, right_range with
  | some left, some right =>
    if left.min.is_unknown || right.min.is_unknown then
      .ok (instr, range)
    else do
      let range ← self.binary_op instr.op_kind left right left_defn
      let range_size := instr.representation.to_range_size
      if h : instr.is_truncating then
        return (instr, self.clamp_range range range_size)
      else
        let fits ← self.fits range range_size
        return (instr.set_can_overflow (!fits) (fun ht => absurd ht h), self.clamp_range range range_size)
  | _, _ => .ok (instr, range)

/-- The bits of a representation, without the sign. -/
def bits : Representation → Nat
  | .kTagged => self.kSmiBits
  | .kUnboxedInt32 => 31
  | .kUnboxedUint32 => 32
  | .kUnboxedInt64 => 63

def Representable (representation : Representation) (x : Int) : Prop :=
  InBits (self.bits representation) x ∧ (representation = .kUnboxedUint32 → 0 ≤ x)

instance (representation : Representation) (x : Int) : Decidable (self.Representable representation x) :=
  inferInstanceAs (Decidable ((_ ∧ _) ∧ _))

/-- The lower bits of a number, read as a number of the representation. -/
def reduce (representation : Representation) (x : Int) : Int :=
  match representation with
  | .kUnboxedUint32 => x % 2 ^ 32
  | _ => x.bmod (2 ^ (self.bits representation + 1))

/-- The value that an operation produces, if it neither throws nor deoptimizes. -/
def produces (instr : BinaryIntegerOp) (a b : Int) : Option Int :=
  (instr.op_kind.exact a b).bind fun m =>
    if self.Representable instr.representation m then some m
    else if instr.is_truncating then some (self.reduce instr.representation m) else none

variable {self} {representation : Representation} {size : RangeSize} {value : δ → Int} {range : Range δ} {x m : Int}

lemma representable_reduce : self.Representable representation (self.reduce representation x) := by
  have hsigned (k : Nat) : InBits k (x.bmod (2 ^ (k + 1))) := by
    have hlo := Int.le_bmod (x := x) (m := 2 ^ (k + 1)) (by positivity)
    have hhi := Int.bmod_lt (x := x) (m := 2 ^ (k + 1)) (by positivity)
    push_cast at hlo hhi
    exact ⟨by omega, by omega⟩
  cases representation with
  | kUnboxedUint32 => exact ⟨⟨by simp only [reduce, bits]; omega, by simp only [reduce, bits]; omega⟩,
      fun _ => by simp only [reduce]; omega⟩
  | _ => exact ⟨hsigned _, by simp⟩

/-- The numbers between the constants of a size. -/
def Within (self : Definitions δ) (size : RangeSize) (x : Int) : Prop :=
  (self.min_constant size).toInt ≤ x ∧ x ≤ (self.max_constant size).toInt

open range_analysis.Representation

lemma Representable.within (h : self.Representable representation x) : self.Within representation.to_range_size x := by
  obtain ⟨⟨hlo, hhi⟩, hnn⟩ := h
  cases representation with
  | kTagged =>
    refine ⟨?_, ?_⟩
    · rw [to_range_size, toInt_min_constant_smi]
      exact hlo
    · rw [to_range_size, toInt_max_constant_smi]
      exact Int.le_sub_one_of_lt hhi
  | kUnboxedInt32 => exact ⟨hlo, Int.le_sub_one_of_lt hhi⟩
  | kUnboxedUint32 | kUnboxedInt64 =>
    simp only [Within, to_range_size, toInt_min_constant_int64, toInt_max_constant_int64, bits] at *
    omega

lemma contains_clamp_range (h : self.Contains value range x) (hx : self.Within size x) :
    self.Contains value (self.clamp_range range size) x := by
  obtain ⟨low, high, hlo, hhi, hle, hge⟩ := h
  obtain ⟨hmin, hmax⟩ := hx
  have hclampLow : ∃ y, self.Denotes value (self.clamp size range.min) y ∧ y ≤ x := by
    cases hbnd : range.min with
    | unknown => simp only [hbnd, Denotes] at hlo
    | symbol defn offset => exact ⟨low, by rwa [hbnd] at hlo, hle⟩
    | constant c =>
      rw [hbnd] at hlo
      obtain rfl := hlo
      refine ⟨_, rfl, ?_⟩
      rw [toInt_clamp_constant]
      all_goals omega
  have hclampHigh : ∃ y, self.Denotes value (self.clamp size range.max) y ∧ x ≤ y := by
    cases hbnd : range.max with
    | unknown => simp only [hbnd, Denotes] at hhi
    | symbol defn offset => exact ⟨high, by rwa [hbnd] at hhi, hge⟩
    | constant c =>
      rw [hbnd] at hhi
      obtain rfl := hhi
      refine ⟨_, rfl, ?_⟩
      rw [toInt_clamp_constant]
      all_goals omega
  obtain ⟨y, hy, hyx⟩ := hclampLow
  obtain ⟨z, hz, hxz⟩ := hclampHigh
  exact ⟨y, z, hy, hz, hyx, hxz⟩

lemma Within.fits (h : self.Within size x) : Fits x := (fits_toInt _).between (fits_toInt _) h.1 h.2

lemma min_constant_le_max_constant (self : Definitions δ) (size : RangeSize) :
    (self.min_constant size).toInt ≤ (self.max_constant size).toInt := by
  cases size with
  | smi =>
    rw [toInt_min_constant_smi, toInt_max_constant_smi]
    have hsmi : self.IsSmi self.kSmiMin := isSmi_kSmiMin
    exact hsmi.2
  | _ =>
    simp only [min_constant, max_constant]
    decide

lemma within_of_clamp_constant_eq {c : Int64} (h : self.clamp_constant size c = c) : self.Within size c.toInt := by
  have hle := self.min_constant_le_max_constant size
  have hclamp : (self.clamp_constant size c).toInt = _ := toInt_clamp_constant size c
  rw [h] at hclamp
  refine ⟨?_, ?_⟩
  all_goals all_goals omega

end Definitions

namespace Valuation
open Definitions
variable {defs : Definitions δ} (v : Valuation defs) {range : Range δ} {x : Int}

/-- Everything in a range that fits lies within the size. -/
lemma fits_spec (size : RangeSize) (h : defs.Contains v.value range x) : ∃ fits, defs.fits range size = .ok fits ∧
      (fits = true → ∀ y, defs.Contains v.value range y → defs.Within size y) := by
  obtain ⟨low, high, -, -, hlo, hhi, -⟩ := v.constant_bounds_spec h
  have hbounds {y : Int} (hy : defs.Contains v.value range y) : low.toInt ≤ y ∧ y ≤ high.toInt := by
    obtain ⟨low', high', -, -, hlo', hhi', hle⟩ := v.constant_bounds_spec hy
    rw [hlo, Except.ok.injEq] at hlo'
    rw [hhi, Except.ok.injEq] at hhi'
    rwa [hlo', hhi']
  simp only [Definitions.fits, hlo, hhi, ok_bind, pure_eq_ok]
  split
  · exact ⟨false, rfl, by simp⟩
  · rename_i hmin
    refine ⟨_, rfl, ?_⟩
    intro hmax y hy
    have hwithinLow := within_of_clamp_constant_eq (not_not.mp hmin)
    have hwithinHigh := within_of_clamp_constant_eq (of_decide_eq_true hmax)
    obtain ⟨hle, hge⟩ := hbounds hy
    exact ⟨hwithinLow.1.trans hle, hge.trans hwithinHigh.2⟩

end Valuation
end dart.range_analysis
