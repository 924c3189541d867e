import DartVM.Lib.Lockstep
import DartVM.RangeAnalysis.Semantics
import DartVM.IntegerSelection.Selector

namespace dart.integer_selection
open range_analysis int64

/-- Integers, boxed or not, and all other objects. -/
inductive Value (ω : Type) where
  | integer (n : Int)
  | object (o : ω)

variable {δ ω σ π : Type}

namespace Value

def as_integer : Value ω → Option Int
  | integer n => some n
  | object _ => none

/-- The lower 32 bits of an integer, as an unsigned word. -/
def truncate : Value ω → Value ω
  | integer n => integer (n % 2 ^ 32)
  | object o => object o

end Value

def UnaryToken.eval : UnaryToken → Int → Int
  | .kBIT_NOT, x => -x - 1
  | .kNEGATE, x => wrap (-x)

def read_integer (values : δ → Option (Value ω)) (defn : δ) : Option Int := (values defn).bind Value.as_integer

/-- Operands of `uint32` instructions are truncated. -/
def read_uint32 (values : δ → Option (Value ω)) (defn : δ) : Option Int := (read_integer values defn).map (· % 2 ^ 32)

/-- The integer an instruction computes, unless it throws or deoptimizes. -/
def Instr.eval (values : δ → Option (Value ω)) : Instr δ → Option Int
  | box_int64 value => read_integer values value
  | unbox_int64 value => read_integer values value
  | shift_int64 _ op_kind left right =>
    (read_integer values left).bind fun a => (read_integer values right).bind fun b => op_kind.eval a b
  | binary_int64 op_kind left right =>
    (read_integer values left).bind fun a => (read_integer values right).bind fun b => op_kind.eval a b
  | unary_int64 op_kind value => (read_integer values value).map op_kind.eval
  | box_uint32 value => read_uint32 values value
  | unbox_uint32 value => read_uint32 values value
  | shift_uint32 _ op_kind left right =>
    (read_uint32 values left).bind fun a => (read_integer values right).bind fun b =>
      (op_kind.exact a b).map (· % 2 ^ 32)
  | binary_uint32 op_kind left right =>
    (read_uint32 values left).bind fun a => (read_uint32 values right).bind fun b =>
      (op_kind.exact a b).map (· % 2 ^ 32)
  | unary_uint32 op_kind value => (read_uint32 values value).map (op_kind.eval · % 2 ^ 32)
  | other _ => none

/-- An execution of a graph: the values of the definitions, everything else that the
instructions read and write, and the instruction to be executed next. -/
structure State (δ ω σ π : Type) where
  values : δ → Option (Value ω)
  store : σ
  point : π

/-- What the graph does not say about an execution: the order of the instructions, and the
meaning of those that are not integer instructions. They see their inputs and, if they
deoptimize, their environment. A block entry with its phis is one such instruction, which
defines all the phis at once. -/
structure Machine (δ ω σ π : Type) where
  fetch : π → Option δ
  next : π → π
  effect : δ → List (Option (Value ω)) → List (Option (Value ω)) → σ → Option (List (δ × Value ω) × σ × π)

namespace Machine
variable [DecidableEq δ]

def write_all (values : δ → Option (Value ω)) (writes : List (δ × Value ω)) : δ → Option (Value ω) :=
  writes.foldl (fun values write => Function.update values write.1 (some write.2)) values

/-- One instruction. An integer instruction that throws or deoptimizes ends the execution. -/
def step (self : Machine δ ω σ π) (graph : FlowGraph δ) (state : State δ ω σ π) : Option (State δ ω σ π) :=
  (self.fetch state.point).bind fun defn =>
    match graph.instr defn with
    | .other inputs =>
      (self.effect defn (inputs.map state.values) ((graph.environment defn).map state.values) state.store).map
        fun (writes, store, point) => ⟨write_all state.values writes, store, point⟩
    | instr =>
      (instr.eval state.values).map fun n =>
        ⟨Function.update state.values defn (some (.integer n)), state.store, self.next state.point⟩

section
variable {self : Machine δ ω σ π} {graph : FlowGraph δ} {state : State δ ω σ π} {defn : δ}
  (hfetch : self.fetch state.point = some defn)

include hfetch

end

end Machine

end dart.integer_selection
