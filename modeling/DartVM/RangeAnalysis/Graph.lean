import DartVM.RangeAnalysis.Arithmetic

namespace dart.range_analysis
open int64

/-- The instructions that the analysis looks into. -/
inductive Kind (δ : Type) where
  | constraint (value : δ)
  | binary_smi_op (op_kind : Token) (is_truncating : Bool) (left right : δ)
  | phi
  | other

/-- Definitions with the instructions they come from. `redefined_value` is the input that
an instruction only passes on, `equals` compares two instructions that allow CSE. -/
structure Graph (δ β : Type) extends Definitions δ where
  kind : δ → Kind δ
  redefined_value : δ → Option δ
  equals : δ → δ → Bool
  block : δ → β
  dominates : β → β → Bool

namespace Graph
variable {δ β : Type} [DecidableEq δ] [DecidableEq β] (self : Graph δ β)

def unwrap_constraint_loop : Nat → δ → Checked δ
  | 0, _ => .error .out_of_fuel
  | fuel + 1, defn =>
    match self.kind defn with
    | .constraint value => unwrap_constraint_loop fuel value
    | _ => .ok defn

/-- Chases to a constrained definition. -/
def unwrap_constraint (defn : δ) : Checked δ := self.unwrap_constraint_loop (self.order defn + 1) defn

def original_definition_loop : Nat → δ → Checked δ
  | 0, _ => .error .out_of_fuel
  | fuel + 1, defn =>
    match self.redefined_value defn with
    | some value => original_definition_loop fuel value
    | none => .ok defn

def original_definition (defn : δ) : Checked δ := self.original_definition_loop (self.order defn + 1) defn

/-- `BindsToSmiConstant` and `BoundSmiConstant`. -/
def bound_smi_constant (defn : δ) : Checked (Option Int64) :=
  return self.smi_constant (← self.original_definition defn)

def are_equal_definitions (a b : δ) : Checked Bool := do
  let a ← self.unwrap_constraint a
  let b ← self.unwrap_constraint b
  return a = b || self.equals a b

def depend_on_same_symbol : RangeBoundary δ → RangeBoundary δ → Checked Bool
  | .symbol a _, .symbol b _ => self.are_equal_definitions a b
  | _, _ => .ok false

def dominates_phi (a phi_block : β) : Bool := self.dominates a phi_block && a ≠ phi_block

/-- To avoid cycles, the symbols in the range of a phi must dominate it. -/
def ensure_acyclic_symbol (phi_block : β) (a limit : RangeBoundary δ) : Checked (RangeBoundary δ) :=
  match a with
  | .symbol symbol offset => do
    if self.dominates_phi (self.block symbol) phi_block then
      return a
    let unwrapped ← self.unwrap_constraint symbol
    if unwrapped ≠ symbol ∧ self.dominates_phi (self.block unwrapped) phi_block then
      self.from_definition unwrapped offset
    else
      return limit
  | _ => .ok a

/-- One iteration of the loop in `CanonicalizeBoundary`: another symbol with its offset,
the same one, or nothing if the offset overflows. -/
inductive Rewrite (δ : Type) where
  | changed (symbol : δ) (offset : Int64)
  | unchanged
  | overflow

def add_offset (symbol : δ) (offset rhs : Int64) : Checked (Rewrite δ) := do
  if utils.will_add_overflow offset rhs then
    return .overflow
  return .changed symbol (← checked (offset.toInt + rhs.toInt))

def sub_offset (symbol : δ) (offset rhs : Int64) : Checked (Rewrite δ) := do
  if utils.will_sub_overflow offset rhs then
    return .overflow
  return .changed symbol (← checked (offset.toInt - rhs.toInt))

def canonicalize_step (symbol : δ) (offset : Int64) : Checked (Rewrite δ) :=
  match self.kind symbol with
  | .constraint value => .ok (.changed value offset)
  | .binary_smi_op .kADD _ left right =>
    match self.smi_constant right, self.smi_constant left with
    | some rhs, _ => add_offset left offset rhs
    | none, some rhs => add_offset right offset rhs
    | none, none => .ok .unchanged
  | .binary_smi_op .kSUB _ left right =>
    match self.smi_constant right with
    | some rhs => sub_offset left offset rhs
    | none => .ok .unchanged
  | _ => .ok .unchanged

def canonicalize_loop (overflow : RangeBoundary δ) : Nat → δ → Int64 → Checked (RangeBoundary δ)
  | 0, _, _ => .error .out_of_fuel
  | fuel + 1, symbol, offset => do
    match ← self.canonicalize_step symbol offset with
    | .changed symbol offset => canonicalize_loop overflow fuel symbol offset
    | .overflow => return overflow
    | .unchanged =>
      if !self.is_valid_offset_for_symbolic_range_boundary offset then
        return overflow
      self.from_definition symbol offset

def canonicalize_boundary (a overflow : RangeBoundary δ) : Checked (RangeBoundary δ) :=
  match a with
  | .constant _ => .ok a
  | .symbol symbol offset => self.canonicalize_loop overflow (self.order symbol + 1) symbol offset
  | .unknown => .error .assertion

/-- `CanonicalizeMaxBoundary` and `CanonicalizeMinBoundary`: replaces a symbol by a symbolic
end of its own range. `pick` is that end, `limit` what takes the place of a boundary whose
offset overflows. The flag says whether there was a replacement. -/
def canonicalize_end (pick : Range δ → RangeBoundary δ) (limit : Int64) (a : RangeBoundary δ) :
    Checked (RangeBoundary δ × Bool) :=
  match a with
  | .symbol defn a_offset =>
    match (self.range defn).map pick with
    | some (.symbol symbol offset) => do
      if utils.will_add_overflow offset a_offset then
        return (.constant limit, true)
      let offset ← checked (offset.toInt + a_offset.toInt)
      if !self.is_valid_offset_for_symbolic_range_boundary offset then
        return (.constant limit, true)
      let next ← self.canonicalize_boundary (← self.from_definition symbol offset) (.constant limit)
      return (next, true)
    | _ => .ok (a, false)
  | _ => .ok (a, false)

def canonicalize_max_boundary (a : RangeBoundary δ) : Checked (RangeBoundary δ × Bool) :=
  self.canonicalize_end Range.max (self.max_constant .int64) a

def canonicalize_min_boundary (a : RangeBoundary δ) : Checked (RangeBoundary δ × Bool) :=
  self.canonicalize_end Range.min (self.min_constant .int64) a

/-- `RangeBoundary::offset`. -/
def offset : RangeBoundary δ → Int64
  | .symbol _ offset => offset
  | _ => 0

/-- The symbolic comparison of `IsRedundantBasedOnRangeInformation`. -/
def symbolic_comparison : Nat → RangeBoundary δ → RangeBoundary δ → Checked Bool
  | 0, _, _ => .error .out_of_fuel
  | fuel + 1, max, canonical_length => do
    if ← self.depend_on_same_symbol max canonical_length then
      return (offset max).toInt < (offset canonical_length).toInt
    let (max, changed) ← self.canonicalize_max_boundary max
    if changed then
      symbolic_comparison fuel max canonical_length
    else
      let (canonical_length, changed) ← self.canonicalize_min_boundary canonical_length
      if changed then symbolic_comparison fuel max canonical_length else return false

def is_smi (value : Int64) : Bool := self.kSmiMin ≤ value.toInt && value.toInt ≤ self.kSmiMax

def overflowed_smi : RangeBoundary δ → Bool
  | .constant value => !self.is_smi value
  | _ => false

/-- The part of `IsRedundantBasedOnRangeInformation` for an index with a range. -/
def is_index_below (fuel : Nat) (index_defn : δ) (index_range : Range δ) (length : δ) : Checked Bool := do
  if (← self.constant_min index_range .smi).toInt < 0 then
    return false
  let max ← self.from_definition index_defn 0
  let max_upper ← self.upper_bound max
  let array_length ← self.from_definition length 0
  let length_lower ← self.lower_bound array_length
  if !self.is_smi max_upper || !self.is_smi length_lower then
    return false
  if max_upper.toInt < length_lower.toInt then
    return true
  let canonical_length ← self.canonicalize_boundary array_length (.constant (self.max_constant .int64))
  if self.overflowed_smi canonical_length then
    return false
  self.symbolic_comparison fuel max canonical_length

def is_redundant_based_on_range_information (fuel : Nat) (index length : δ) : Checked Bool := do
  let index_constant ← self.bound_smi_constant index
  let length_constant ← self.bound_smi_constant length
  match index_constant, length_constant, self.range index with
  | some index_val, some length_val, _ => return 0 ≤ index_val.toInt && index_val.toInt < length_val.toInt
  | _, _, some index_range => self.is_index_below fuel index index_range length
  | none, _, none => return false
  | some value, none, none =>
    -- the range that `InferRange` gives to a constant
    self.is_index_below fuel (← self.original_definition index) ⟨.constant value, .constant value⟩ length

end Graph
end dart.range_analysis
