import DartVM.RangeAnalysis.Boundary

namespace dart.range_analysis
open int64

/-- The operators of Dart integers. `other` is any other token. -/
inductive Token where
  | kADD
  | kSUB
  | kMUL
  | kTRUNCDIV
  | kMOD
  | kSHL
  | kSHR
  | kUSHR
  | kBIT_AND
  | kBIT_OR
  | kBIT_XOR
  | other
deriving DecidableEq, Repr

/-- The two words of a range of unsigned words. -/
structure UnsignedRange where
  min : Nat
  max : Nat

def convert_range_to_unsigned (a b : Int64) : Checked UnsignedRange := do
  check (a.toInt ≤ b.toInt)
  if a.toInt < 0 ∧ b.toInt ≥ 0 then
    -- the range contains -1 and 0 and wraps around as unsigned
    return ⟨0, 2 ^ 64 - 1⟩
  else
    return ⟨(a.toInt % 2 ^ 64).toNat, (b.toInt % 2 ^ 64).toNat⟩

def convert_range_to_signed (range : UnsignedRange) : Checked (Int64 × Int64) := do
  check (range.min ≤ range.max)
  if range.min ≤ 2 ^ 63 - 1 ∧ range.max ≥ 2 ^ 63 then
    -- the range contains kMinInt64 and kMaxInt64 and wraps around as signed
    return (Int64.minValue, Int64.maxValue)
  else
    return (.ofInt range.min, .ofInt range.max)

namespace Definitions
variable {δ : Type} (self : Definitions δ)

def full (size : RangeSize) : Range δ :=
  ⟨.constant (self.min_constant size), .constant (self.max_constant size)⟩

section
variable (range : Range δ)

def only_less_than_or_equal_to (val : Int) : Checked Bool :=
  return (← self.upper_bound range.max).toInt ≤ val

def only_greater_than_or_equal_to (val : Int) : Checked Bool :=
  return (← self.lower_bound range.min).toInt ≥ val

def is_positive : Checked Bool := self.only_greater_than_or_equal_to range 0

/-- Negative shift counts throw, so the minimum shift count is zero. -/
def shift_counts (right : Range δ) : Checked (Int64 × Int64) := do
  let right_max ← self.constant_max right .int64
  let right_min ← self.constant_min right .int64
  return (if right_min.toInt > 0 then right_min else 0, if right_max.toInt > 0 then right_max else 0)

/-- One end of a shifted range, unless it overflows. -/
def shl_boundary (value shift_amount : Int64) : Checked (Option Int64) := do
  if ← will_shl_overflow value shift_amount then
    return none
  return some (← shl_constant value shift_amount)

section
variable (left right : Range δ)

def shl : Checked (Range δ) := do
  let left_max ← self.constant_max left .int64
  let left_min ← self.constant_min left .int64
  let (right_min, right_max) ← self.shift_counts right
  let result_min ← shl_boundary left_min (if left_min.toInt > 0 then right_min else right_max)
  let result_max ← shl_boundary left_max (if left_max.toInt > 0 then right_max else right_min)
  match result_min, result_max with
  | some min, some max => return ⟨.constant min, .constant max⟩
  | _, _ => return self.full .int64

def shr : Checked (Range δ) := do
  let left_max ← self.constant_max left .int64
  let left_min ← self.constant_min left .int64
  let (right_min, right_max) ← self.shift_counts right
  let result_min ← shr_constant left_min (if left_min.toInt > 0 then right_max else right_min)
  let result_max ← shr_constant left_max (if left_max.toInt > 0 then right_min else right_max)
  return ⟨.constant result_min, .constant result_max⟩

def ushr : Checked (Range δ) := do
  let left_max ← self.constant_max left .int64
  let left_min ← self.constant_min left .int64
  let (right_min, right_max) ← self.shift_counts right
  let unsigned_left ← convert_range_to_unsigned left_min left_max
  let unsigned_result_min :=
    if right_max.toInt ≥ 64 then 0 else unsigned_left.min >>> right_max.toInt.toNat
  let unsigned_result_max :=
    if right_min.toInt ≥ 64 then 0 else unsigned_left.max >>> right_min.toInt.toNat
  let (min, max) ← convert_range_to_signed ⟨unsigned_result_min, unsigned_result_max⟩
  return ⟨.constant min, .constant max⟩

end

def bit_size : Checked Nat := do
  let min ← self.constant_min range .int64
  let max ← self.constant_max range .int64
  return Nat.max (← utils.bit_length min) (← utils.bit_length max)

variable (left_range right_range : Range δ)

/-- The bounds are computed in unsigned words and converted back. -/
def bitwise_op : Checked (Range δ) := do
  let bitsize := Nat.max (← self.bit_size left_range) (← self.bit_size right_range)
  let positive := (← self.is_positive left_range) && (← self.is_positive right_range)
  let limit : Int := 2 ^ bitsize % 2 ^ 64
  return ⟨.constant (if positive then 0 else .ofInt (-limit)), .constant (.ofInt (limit - 1))⟩

def and : Checked (Range δ) := do
  if (← self.constant_min right_range .int64).toInt ≥ 0 then
    return ⟨.constant 0, .constant (← self.constant_max right_range .int64)⟩
  if (← self.constant_min left_range .int64).toInt ≥ 0 then
    return ⟨.constant 0, .constant (← self.constant_max left_range .int64)⟩
  self.bitwise_op left_range right_range

section
variable (left_defn : Option δ)

/-- A boundary of the left operand. An array length stands for itself. -/
def left_boundary (boundary : RangeBoundary δ) : Checked (RangeBoundary δ) :=
  match left_defn with
  | some defn => if self.is_array_length defn then self.from_definition defn 0 else .ok boundary
  | none => .ok boundary

/-- One end of a sum: symbolic if possible, else from the constant bounds unless they
overflow. -/
def add_boundary (bound : RangeBoundary δ → Checked Int64) (left_defn : Option δ)
    (left right : RangeBoundary δ) : Checked (Option (RangeBoundary δ)) := do
  match ← self.symbolic_add (← self.left_boundary left_defn left) right with
  | some result => return some result
  | none =>
    let left_bound ← bound left
    let right_bound ← bound right
    if utils.will_add_overflow left_bound right_bound then
      return none
    return some (.constant (← add_constants left_bound right_bound))

def add : Checked (Range δ) := do
  let result_min ← self.add_boundary self.lower_bound left_defn left_range.min right_range.min
  let result_max ← self.add_boundary self.upper_bound left_defn left_range.max right_range.max
  match result_min, result_max with
  | some min, some max => return ⟨min, max⟩
  | _, _ => return self.full .int64

def sub_boundary (left_op right_op : RangeBoundary δ → Checked Int64) (left_defn : Option δ)
    (left right : RangeBoundary δ) : Checked (Option (RangeBoundary δ)) := do
  match ← self.symbolic_sub (← self.left_boundary left_defn left) right with
  | some result => return some result
  | none =>
    let left_bound ← left_op left
    let right_bound ← right_op right
    if utils.will_sub_overflow left_bound right_bound then
      return none
    return some (.constant (← sub_constants left_bound right_bound))

def sub : Checked (Range δ) := do
  let result_min ← self.sub_boundary self.lower_bound self.upper_bound left_defn left_range.min right_range.max
  let result_max ← self.sub_boundary self.upper_bound self.lower_bound left_defn left_range.max right_range.min
  match result_min, result_max with
  | some min, some max => return ⟨min, max⟩
  | _, _ => return self.full .int64

variable (range : Range δ)

/-- The absolute values of the two ends of a range. -/
def constant_abs : Checked (Int64 × Int64) := do
  let abs_min ← utils.abs_with_saturation (← self.constant_min range .int64)
  let abs_max ← utils.abs_with_saturation (← self.constant_max range .int64)
  return (abs_min, abs_max)

/-- The maximum absolute value included in the range. -/
def constant_abs_max : Checked Int64 := do
  let (abs_min, abs_max) ← self.constant_abs range
  return if abs_min.toInt > abs_max.toInt then abs_min else abs_max

def constant_abs_min : Checked Int64 := do
  let (abs_min, abs_max) ← self.constant_abs range
  return if abs_min.toInt < abs_max.toInt then abs_min else abs_max

end

def only_positive_or_zero (a b : Range δ) : Checked Bool :=
  return (← self.only_greater_than_or_equal_to a 0) && (← self.only_greater_than_or_equal_to b 0)

def only_negative_or_zero (a b : Range δ) : Checked Bool :=
  return (← self.only_less_than_or_equal_to a 0) && (← self.only_less_than_or_equal_to b 0)

def mul : Checked (Range δ) := do
  let left_max ← self.constant_abs_max left_range
  let right_max ← self.constant_abs_max right_range
  if left_max.toInt ≤ -self.kSmiMin ∧ right_max.toInt ≤ -self.kSmiMin ∧
      (left_max.toInt = 0 ∨ right_max.toInt ≤ (2 ^ 63 - 1) / left_max.toInt) then
    let mul_max ← checked (left_max.toInt * right_max.toInt)
    if (← self.only_positive_or_zero left_range right_range) ||
        (← self.only_negative_or_zero left_range right_range) then
      let left_min ← self.constant_abs_min left_range
      let right_min ← self.constant_abs_min right_range
      let mul_min ← checked (left_min.toInt * right_min.toInt)
      return ⟨.constant mul_min, .constant mul_max⟩
    else
      return ⟨.constant (← checked (-mul_max.toInt)), .constant mul_max⟩
  else
    return self.full .int64

def trunc_div : Checked (Range δ) := do
  if (← self.only_greater_than_or_equal_to left_range 0) && (← self.only_greater_than_or_equal_to right_range 1) then
    let left_max ← self.constant_abs_max left_range
    let left_min ← self.constant_abs_min left_range
    let right_max ← self.constant_abs_max right_range
    let right_min ← self.constant_abs_min right_range
    let result_max ← quotient left_max right_min
    let result_min ← quotient left_min right_max
    return ⟨.constant result_min, .constant result_max⟩
  else
    return self.full .int64

end

/-- The largest remainder. Note that `x % MinInt` can be `MaxInt` and `x % 0` throws. -/
def mod_max (right_range : Range δ) : Checked Int64 := do
  if (← self.constant_min right_range .int64) ≠ Int64.minValue then
    let right_max ← self.constant_abs_max right_range
    let last ← checked (right_max.toInt - 1)
    return if last.toInt > 0 then last else 0
  else
    return Int64.maxValue

def mod (right_range : Range δ) : Checked (Range δ) :=
  return ⟨.constant 0, .constant (← self.mod_max right_range)⟩

/-- The transfer function of each operator. -/
def transfer (op : Token) (left_range right_range : Range δ) (left_defn : Option δ) : Checked (Range δ) :=
  match op with
  | .kADD => self.add left_range right_range left_defn
  | .kSUB => self.sub left_range right_range left_defn
  | .kMUL => self.mul left_range right_range
  | .kTRUNCDIV => self.trunc_div left_range right_range
  | .kMOD => self.mod right_range
  | .kSHL => self.shl left_range right_range
  | .kSHR => self.shr left_range right_range
  | .kUSHR => self.ushr left_range right_range
  | .kBIT_AND => self.and left_range right_range
  | .kBIT_XOR => self.bitwise_op left_range right_range
  | .kBIT_OR => self.bitwise_op left_range right_range
  | .other => return self.full .int64

/-- Whether both ends are known and, if constant, in order. -/
def is_sane : Range δ → Bool
  | ⟨.unknown, _⟩ => false
  | ⟨_, .unknown⟩ => false
  | ⟨.constant min, .constant max⟩ => min.toInt ≤ max.toInt
  | _ => true

def binary_op (op : Token) (left_range right_range : Range δ) (left_defn : Option δ) : Checked (Range δ) := do
  let result ← self.transfer op left_range right_range left_defn
  check (is_sane result)
  return result

end Definitions
end dart.range_analysis
