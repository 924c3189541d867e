import DartVM.RangeAnalysis.Arithmetic

namespace dart.integer_selection
open range_analysis

inductive UnaryToken where
  | kBIT_NOT
  | kNEGATE
deriving DecidableEq, Repr

/-- The integer instructions that are replaced and what they are replaced with. Of the
other instructions only the inputs matter. -/
inductive Instr (δ : Type) where
  | box_int64 (value : δ)
  | unbox_int64 (value : δ)
  | shift_int64 (speculative : Bool) (op_kind : Token) (left right : δ)
  | binary_int64 (op_kind : Token) (left right : δ)
  | unary_int64 (op_kind : UnaryToken) (value : δ)
  | box_uint32 (value : δ)
  | unbox_uint32 (value : δ)
  | shift_uint32 (speculative : Bool) (op_kind : Token) (left right : δ)
  | binary_uint32 (op_kind : Token) (left right : δ)
  | unary_uint32 (op_kind : UnaryToken) (value : δ)
  | other (inputs : List δ)

namespace Instr
variable {δ : Type}

def inputs : Instr δ → List δ
  | box_int64 value | unbox_int64 value | unary_int64 _ value => [value]
  | box_uint32 value | unbox_uint32 value | unary_uint32 _ value => [value]
  | shift_int64 _ _ left right | binary_int64 _ left right => [left, right]
  | shift_uint32 _ _ left right | binary_uint32 _ left right => [left, right]
  | other inputs => inputs

def is_box_int64 : Instr δ → Bool
  | box_int64 _ => true
  | _ => false

def is_shift : Instr δ → Bool
  | shift_int64 .. | shift_uint32 .. => true
  | _ => false

/-- `BinaryUint32OpInstr::IsSupported` -/
def binary_is_supported (op_kind : Token) : Bool :=
  match op_kind with
  | .kADD | .kSUB | .kMUL | .kBIT_AND | .kBIT_OR | .kBIT_XOR => true
  | _ => false

/-- `UnaryUint32OpInstr::IsSupported` -/
def unary_is_supported (op_kind : UnaryToken) : Bool := op_kind = .kBIT_NOT

def is_potential_uint32_definition : Instr δ → Bool
  | box_int64 _ => true
  | unbox_int64 _ => true
  | shift_int64 .. => true
  | binary_int64 op_kind _ _ => binary_is_supported op_kind
  | unary_int64 op_kind _ => unary_is_supported op_kind
  | _ => false

end Instr

/-- A use of a definition: an input of an instruction, or an entry of its environment. -/
structure Use (δ : Type) where
  instruction : δ
  index : Nat
  in_environment : Bool

/-- A graph with its instructions in reverse postorder and what the analysis knows about them. -/
structure FlowGraph (δ : Type) extends Definitions δ where
  instructions : List δ
  instr : δ → Instr δ
  has_ssa_temp : δ → Bool
  environment : δ → List δ

def kMaxUint32 : Int := 2 ^ 32 - 1

namespace FlowGraph
variable {δ : Type} [DecidableEq δ] (self : FlowGraph δ)

/-- The uses of a definition among the operands of each instruction. -/
def uses (operands : δ → List δ) (in_environment : Bool) (defn : δ) : List (Use δ) :=
  self.instructions.flatMap fun instruction =>
    (operands instruction).zipIdx.filterMap fun (operand, index) =>
      if operand = defn then some ⟨instruction, index, in_environment⟩ else none

def input_use_list (defn : δ) : List (Use δ) := self.uses (fun d => (self.instr d).inputs) false defn

def env_use_list (defn : δ) : List (Use δ) := self.uses self.environment true defn

/-- `Range::IsWithin` -/
def is_within (range : Range δ) (min_int max_int : Int) : Checked Bool := do
  if ← self.only_greater_than_or_equal_to range min_int then
    self.only_less_than_or_equal_to range max_int
  else
    return false

/-- Whether the range of a definition is known and has unsigned words only. -/
def has_uint32_range (defn : δ) : Checked Bool :=
  match self.range defn with
  | none => .ok false
  | some range => self.is_within range 0 kMaxUint32

/-- `FindPotentialUint32Definitions` -/
def potential_uint32_defs : List δ :=
  self.instructions.filter fun defn => self.has_ssa_temp defn && (self.instr defn).is_potential_uint32_definition

/-- Masks that truncate a value to an unsigned word. -/
def is_uint32_narrowing_definition (defn : δ) : Checked Bool :=
  match self.instr defn with
  | .binary_int64 .kBIT_AND _ _ => self.has_uint32_range defn
  | _ => .ok false

section
variable (selected : List δ)

/-- The count of a shift is not narrowing: all its bits are taken into account. -/
def is_narrowing_use (use : Use δ) : Bool :=
  self.has_ssa_temp use.instruction && decide (use.instruction ∈ selected) &&
    !((self.instr use.instruction).is_shift && !use.in_environment && use.index == 1)

def all_uses_are_uint32_narrowing (uses : List (Use δ)) : Bool :=
  uses.all (self.is_narrowing_use selected)

/-- A right shift of an input that may have high bits. -/
def needs_high_bits : Instr δ → Checked Bool
  | .shift_int64 _ .kSHR left _ | .shift_int64 _ .kUSHR left _ => return !(← self.has_uint32_range left)
  | _ => .ok false

def can_become_uint32 (defn : δ) : Checked Bool :=
  match self.instr defn with
  | .box_int64 value => .ok (decide (value ∈ selected))
  | instr => do
    if ← self.needs_high_bits instr then
      return false
    if (self.input_use_list defn).isEmpty && (self.env_use_list defn).isEmpty then
      return false
    return self.all_uses_are_uint32_narrowing selected (self.input_use_list defn) &&
      self.all_uses_are_uint32_narrowing selected (self.env_use_list defn)

end

end FlowGraph

namespace FlowGraph
variable {δ : Type} [DecidableEq δ]

end FlowGraph
end dart.integer_selection
