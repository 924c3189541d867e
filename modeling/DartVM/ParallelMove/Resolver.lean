import DartVM.Fault

namespace dart.parallel_move_resolver

/-- A location is encoded as a single word. Two locations with different
encodings are disjoint, so a location names one cell. -/
structure Location where
  value : BitVec 64
deriving DecidableEq, Repr

namespace Location

def kInvalidLocation : BitVec 64 := 0

def kConstantTag : BitVec 64 := 1

variable (self : Location)

def is_invalid : Bool := self.value == kInvalidLocation

def is_constant : Bool := self.value &&& kConstantTag == kConstantTag

def equals (self other : Location) : Bool := self.value == other.value

/-- Empty location. Used if the location should be ignored. -/
def no_location : Location := ⟨kInvalidLocation⟩

@[simp] lemma equals_iff (self other : Location) : self.equals other = true ↔ self = other := by
  cases self
  cases other
  simp [equals]

@[simp] lemma is_invalid_iff : self.is_invalid = true ↔ self = no_location := by
  cases self
  simp [is_invalid, no_location]

@[simp] lemma is_invalid_eq_false_iff : self.is_invalid = false ↔ self ≠ no_location := by
  rw [← Bool.not_eq_true, is_invalid_iff]

end Location

structure MoveOperands where
  dest : Location
  src : Location
deriving DecidableEq, Repr

namespace MoveOperands

section
variable (self : MoveOperands)

def is_pending : Checked Bool := do
  check (!self.src.is_invalid || self.dest.is_invalid)
  return self.dest.is_invalid && !self.src.is_invalid

def is_eliminated : Checked Bool := do
  check (!self.src.is_invalid || self.dest.is_invalid)
  return self.src.is_invalid

/-- The resolver marks moves as "in-progress" by clearing the destination (but
not the source). Returns the cleared destination and the marked move. -/
def mark_pending : Checked (Location × MoveOperands) := do
  check (!(← self.is_pending))
  return (self.dest, { self with dest := Location.no_location })

def clear_pending (dest : Location) : Checked MoveOperands := do
  check (← self.is_pending)
  return { self with dest := dest }

/-- True if this is a move from the given location. -/
def blocks (loc : Location) : Checked Bool := do
  return !(← self.is_eliminated) && self.src.equals loc

/-- A move is redundant if it has been eliminated, if its source and destination
are the same, or if its destination is unneeded. -/
def is_redundant : Checked Bool := do
  return (← self.is_eliminated) || self.dest.is_invalid || self.src.equals self.dest

end

/-- Both operands are cleared to indicate a move that has been eliminated. -/
def eliminated : MoveOperands := ⟨Location.no_location, Location.no_location⟩

end MoveOperands

/-- The moves of a parallel move instruction. A move without a source has no
destination either, which is what the accessors of `MoveOperands` assert, and a
destination is a cell rather than a constant. -/
structure ParallelMoveInstr where
  moves : List MoveOperands
  operands_valid : ∀ move ∈ moves, move.src = Location.no_location → move.dest = Location.no_location
  dest_not_constant : ∀ move ∈ moves, move.dest.is_constant = false

inductive OpKind where
  | kNop
  | kMove
  | kSwap
deriving DecidableEq, Repr

structure Op where
  kind : OpKind
  operands : MoveOperands
deriving DecidableEq, Repr

abbrev MoveSchedule := List Op

/-- `MoveSchedule::From`: filters out all `kNop` operations. -/
def MoveSchedule.of_ops (ops : List Op) : MoveSchedule := ops.filter fun op => op.kind != .kNop

/-- The resolver's two growable arrays. -/
structure ParallelMoveResolver where
  moves : List MoveOperands
  scheduled_ops : List Op
deriving DecidableEq, Repr

namespace ParallelMoveResolver

section
variable (self : ParallelMoveResolver) (index : Nat)

/-- `moves_[index]`. -/
def move_at : Checked MoveOperands :=
  match self.moves[index]? with
  | some move => .ok move
  | none => .error .out_of_bounds

/-- `moves_[index] = move`. -/
def set_move (move : MoveOperands) : ParallelMoveResolver :=
  { self with moves := self.moves.set index move }

/-- Schedule a move and remove it from the move graph. -/
def add_move_to_schedule : Checked ParallelMoveResolver := do
  let move ← self.move_at index
  return { moves := self.moves.set index MoveOperands.eliminated
           scheduled_ops := self.scheduled_ops ++ [⟨.kMove, move⟩] }

/-- Schedule a swap of two operands. Any unperformed (including pending) move
with a source of either operand has its source changed to reflect the state of
affairs after the swap. -/
def add_swap_to_schedule : Checked ParallelMoveResolver := do
  let move ← self.move_at index
  let source := move.src
  let destination := move.dest
  let moves := self.moves.set index MoveOperands.eliminated
  let renamed ← moves.mapM fun other_move => do
    if ← other_move.blocks source then
      return { other_move with src := destination }
    else if ← other_move.blocks destination then
      return { other_move with src := source }
    else
      return other_move
  return { moves := renamed, scheduled_ops := self.scheduled_ops ++ [⟨.kSwap, move⟩] }

/-- The search for a move blocked on `destination` at the end of `PerformMove`.
Such a move has to be pending. -/
def find_blocking (destination : Location) : List MoveOperands → Checked Bool
  | [] => return false
  | other_move :: moves => do
    if ← other_move.blocks destination then
      check (← other_move.is_pending)
      return true
    else
      find_blocking destination moves

/-- One iteration of the loop of `PerformMove`: any unperformed, unpending move
with a source the same as this one's destination blocks this one and is
performed first. -/
def perform_blocking (perform : ParallelMoveResolver → Nat → Checked ParallelMoveResolver)
    (destination : Location) (self : ParallelMoveResolver) (i : Nat) : Checked ParallelMoveResolver := do
  let other_move ← self.move_at i
  if (← other_move.blocks destination) && !(← other_move.is_pending) then
    perform self i
  else
    return self

/-- The end of `PerformMove`, when no unpending move blocks the move any more. -/
def finish_move (destination : Location) : Checked ParallelMoveResolver := do
  let move ← self.move_at index
  let move ← move.clear_pending destination
  let self := self.set_move index move
  -- Swaps may have made this the last move of a cycle.
  if move.src.equals destination then
    return self.set_move index MoveOperands.eliminated
  else if ← find_blocking destination self.moves then
    self.add_swap_to_schedule index
  else
    self.add_move_to_schedule index

end

/-- Performs the move at the given index, after the moves that block it. The
first argument bounds the depth of the recursion. -/
def perform_move : Nat → ParallelMoveResolver → Nat → Checked ParallelMoveResolver
  | 0, _, _ => .error .out_of_fuel
  | fuel + 1, self, index => do
    let move ← self.move_at index
    check (!(← move.is_pending))
    check (!(← move.is_redundant))
    check (!move.src.is_invalid)
    let (destination, pending) ← move.mark_pending
    let self := self.set_move index pending
    let self ← (List.range self.moves.length).foldlM
      (perform_blocking (perform_move fuel) destination) self
    self.finish_move index destination

variable (parallel_move : ParallelMoveInstr)

/-- `BuildInitialMoveList`: the moves that are not redundant. -/
def build_initial_move_list : Checked (List MoveOperands) :=
  parallel_move.moves.foldlM (fun moves move => do
    if ← move.is_redundant then return moves else return moves ++ [move]) []

/-- The moves with constant sources, performed last. -/
def schedule_constants (ops : List Op) : List MoveOperands → Checked (List Op)
  | [] => return ops
  | move :: moves => do
    if ← move.is_eliminated then
      schedule_constants ops moves
    else
      check move.src.is_constant
      schedule_constants (ops ++ [⟨.kMove, move⟩]) moves

/-- One iteration of the main loop of `Resolve`. Constants are skipped to
perform them last. -/
def resolve_move (fuel : Nat) (self : ParallelMoveResolver) (i : Nat) : Checked ParallelMoveResolver := do
  let move ← self.move_at i
  if !(← move.is_eliminated) && !move.src.is_constant then
    perform_move fuel self i
  else
    return self

/-- `Resolve`. A call of `PerformMove` marks a move as pending before it
recurses, so the number of moves bounds the depth of the recursion. -/
def resolve : Checked MoveSchedule := do
  let moves ← build_initial_move_list parallel_move
  let self ← (List.range moves.length).foldlM (resolve_move moves.length) ⟨moves, []⟩
  let ops ← schedule_constants self.scheduled_ops self.moves
  return MoveSchedule.of_ops ops

end ParallelMoveResolver

/-- The contents of a location: constants denote themselves, everything else is
read from the store. -/
def read {Val : Type} (constants store : Location → Val) (loc : Location) : Val :=
  if loc.is_constant then constants loc else store loc

/-- Executing one scheduled operation: `kMove` copies the source into the
destination, `kSwap` exchanges the two cells. -/
def Op.execute {Val : Type} (constants store : Location → Val) (op : Op) : Location → Val :=
  match op.kind with
  | .kNop => store
  | .kMove => Function.update store op.operands.dest (read constants store op.operands.src)
  | .kSwap =>
    Function.update (Function.update store op.operands.dest (store op.operands.src))
      op.operands.src (store op.operands.dest)

/-- Sequential execution of a schedule. -/
def MoveSchedule.execute {Val : Type} (constants : Location → Val) (schedule : MoveSchedule)
    (store : Location → Val) : Location → Val :=
  schedule.foldl (fun store op => op.execute constants store) store

end dart.parallel_move_resolver
