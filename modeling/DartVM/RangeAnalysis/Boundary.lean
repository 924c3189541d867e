import DartVM.Platform.Words

namespace dart.range_analysis
open int64

/-- One end of a range: a constant, or a definition plus an offset. -/
inductive RangeBoundary (δ : Type) where
  | unknown
  | symbol (defn : δ) (offset : Int64)
  | constant (value : Int64)
deriving DecidableEq

structure Range (δ : Type) where
  min : RangeBoundary δ
  max : RangeBoundary δ
deriving DecidableEq

inductive RangeSize where
  | smi
  | int8
  | int16
  | int32
  | int64
deriving DecidableEq, Repr

def Range.Mentions {δ : Type} (self : Range δ) (defn : δ) : Prop :=
  ∃ offset, self.min = .symbol defn offset ∨ self.max = .symbol defn offset

/-- What the analysis knows about the definitions of a graph. `kSmiBits` depends on the
target, and `order` numbers the definitions. -/
structure Definitions (δ : Type) where
  kSmiBits : Nat
  kSmiBits_le : kSmiBits ≤ 62
  smi_constant : δ → Option Int64
  is_array_length : δ → Bool
  range : δ → Option (Range δ)
  order : δ → Nat

/-- The value bits of a small integer on 64-bit targets. -/
abbrev kSmiBits64 : Nat := 62

/-- The symbols in the range of a definition come before it. -/
def Definitions.Acyclic {δ : Type} (self : Definitions δ) : Prop :=
  ∀ defn range, self.range defn = some range → ∀ symbol, range.Mentions symbol → self.order symbol < self.order defn

namespace Definitions
variable {δ : Type} (self : Definitions δ)

def kSmiMin : Int := -2 ^ self.kSmiBits

def kSmiMax : Int := 2 ^ self.kSmiBits - 1

def min_constant : RangeSize → Int64
  | .smi => .ofInt self.kSmiMin
  | .int8 => .ofInt (-2 ^ 7)
  | .int16 => .ofInt (-2 ^ 15)
  | .int32 => .ofInt (-2 ^ 31)
  | .int64 => Int64.minValue

def max_constant : RangeSize → Int64
  | .smi => .ofInt self.kSmiMax
  | .int8 => .ofInt (2 ^ 7 - 1)
  | .int16 => .ofInt (2 ^ 15 - 1)
  | .int32 => .ofInt (2 ^ 31 - 1)
  | .int64 => Int64.maxValue

/-- Symbolic boundaries with other offsets could wrap around. -/
def is_valid_offset_for_symbolic_range_boundary (offset : Int64) : Bool :=
  !(offset.toInt > 2 ^ 63 - 1 - self.kSmiMax || offset.toInt < -2 ^ 63 - self.kSmiMin)

/-- Construct a boundary from a definition and an offset. -/
def from_definition (defn : δ) (offs : Int64) : Checked (RangeBoundary δ) :=
  match self.smi_constant defn with
  | some value => do
    return .constant (← checked (value.toInt + offs.toInt))
  | none => do
    check (self.is_valid_offset_for_symbolic_range_boundary offs)
    return .symbol defn offs

/-- `Clamp` of a constant boundary. -/
def clamp_constant (size : RangeSize) (value : Int64) : Int64 :=
  if value.toInt ≤ (self.min_constant size).toInt then self.min_constant size
  else if value.toInt ≥ (self.max_constant size).toInt then self.max_constant size
  else value

/-- Symbolic boundaries are not clamped. -/
def clamp (size : RangeSize) : RangeBoundary δ → RangeBoundary δ
  | .constant value => .constant (self.clamp_constant size value)
  | boundary => boundary

end Definitions

/-- `RangeBoundary::Add` of two constants. -/
def add_constants (a b : Int64) : Checked Int64 := do
  check (!utils.will_add_overflow a b)
  checked (a.toInt + b.toInt)

def sub_constants (a b : Int64) : Checked Int64 := do
  check (!utils.will_sub_overflow a b)
  checked (a.toInt - b.toInt)

namespace Definitions
variable {δ : Type} (self : Definitions δ)

/-- `LowerBound` and `UpperBound` follow the ranges of symbols to a constant. `pick` is the
end of a range they take and `limit` what they assume of a definition without a range. -/
def bound (pick : Range δ → RangeBoundary δ) (limit : Int64) : Nat → RangeBoundary δ → Checked Int64
  | _, .constant value => .ok value
  | _, .unknown => .error .assertion
  | 0, .symbol _ _ => .error .out_of_fuel
  | fuel + 1, .symbol defn offset =>
    match self.range defn with
    | none => add_constants limit offset
    | some range => do
      let smi ← bound pick limit fuel (pick range)
      add_constants (self.clamp_constant .smi smi) offset

/-- How many symbols there can be on the way from a boundary. -/
def height : RangeBoundary δ → Nat
  | .symbol defn _ => self.order defn + 1
  | _ => 0

def lower_bound (boundary : RangeBoundary δ) : Checked Int64 :=
  self.bound Range.min (self.min_constant .smi) (self.height boundary) boundary

def upper_bound (boundary : RangeBoundary δ) : Checked Int64 :=
  self.bound Range.max (self.max_constant .smi) (self.height boundary) boundary

def constant_min (range : Range δ) (size : RangeSize) : Checked Int64 :=
  return self.clamp_constant size (← self.lower_bound range.min)

def constant_max (range : Range δ) (size : RangeSize) : Checked Int64 :=
  return self.clamp_constant size (← self.upper_bound range.max)

/-- The boundary at another offset from a symbol, if the offset is valid. -/
def with_offset (defn : δ) (offset : Int64) : Checked (Option (RangeBoundary δ)) := do
  if !self.is_valid_offset_for_symbolic_range_boundary offset then
    return none
  return some (← self.from_definition defn offset)

/-- `SymbolicAdd` of a symbol and a constant. -/
def symbolic_add_constant (defn : δ) (offset value : Int64) : Checked (Option (RangeBoundary δ)) := do
  if utils.will_add_overflow offset value then
    return none
  self.with_offset defn (← checked (offset.toInt + value.toInt))

/-- `a + b` where one is a symbol and the other is a constant, if it can be calculated. -/
def symbolic_add : RangeBoundary δ → RangeBoundary δ → Checked (Option (RangeBoundary δ))
  | .symbol defn offset, .constant value => self.symbolic_add_constant defn offset value
  | .constant value, .symbol defn offset => self.symbolic_add_constant defn offset value
  | _, _ => return none

/-- `a - b` where `a` is a symbol and `b` is a constant. -/
def symbolic_sub : RangeBoundary δ → RangeBoundary δ → Checked (Option (RangeBoundary δ))
  | .symbol defn offset, .constant value => do
    if utils.will_sub_overflow offset value then
      return none
    self.with_offset defn (← checked (offset.toInt - value.toInt))
  | _, _ => return none

end Definitions

def will_shl_overflow (value : Int64) (shift_count : Int64) : Checked Bool := do
  check (shift_count.toInt ≥ 0)
  if value = 0 then
    return false
  if shift_count.toInt ≥ 64 then
    return true
  return !(← utils.is_int (64 - shift_count.toInt).toNat value)

variable (value shift_count : Int64)

/-- `RangeBoundary::Shl`. The bits of the value are shifted as those of an unsigned word. -/
def shl_constant : Checked Int64 := do
  check (!(← will_shl_overflow value shift_count))
  check (shift_count.toInt ≥ 0)
  if value = 0 then
    return 0
  return .ofInt (value.toInt * 2 ^ shift_count.toInt.toNat)

def shr_constant : Checked Int64 := do
  check (shift_count.toInt ≥ 0)
  if shift_count.toInt ≤ 63 then
    return .ofInt (value.toInt / 2 ^ shift_count.toInt.toNat)
  else
    return if value.toInt ≥ 0 then 0 else -1

end dart.range_analysis
