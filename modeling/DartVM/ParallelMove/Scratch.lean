import DartVM.ParallelMove.Resolver

namespace dart.parallel_move_resolver
open Function MoveSchedule Location List

/-- Whether an operation reads a location, as the emitter sees it. -/
def Op.reads (op : Op) (loc : Location) : Bool :=
  op.operands.src.equals loc || (op.kind == .kSwap && op.operands.dest.equals loc)

def Op.moves_to (op : Op) (loc : Location) : Bool := op.kind == .kMove && op.operands.dest.equals loc

/-- `ParallelMoveEmitter::IsScratchLocation`: no operation from the current one on reads the
location, and a later one overwrites it. -/
def MoveSchedule.is_scratch_location (schedule : MoveSchedule) (current_move : Nat) (loc : Location) : Bool :=
  !(schedule.drop current_move).any (·.reads loc) && (schedule.drop (current_move + 1)).any (·.moves_to loc)

variable {Val : Type} {constants store : Location → Val} {op : Op} {loc : Location} {value : Val}

lemma read_update_of_ne {src : Location} (h : src ≠ loc) :
    read constants (update store loc value) src = read constants store src := by
  rw [read, read, update_of_ne h]

lemma Op.execute_update_of_moves_to (hreads : op.reads loc = false) (hmoves : op.moves_to loc = true) :
    op.execute constants (update store loc value) = op.execute constants store := by
  obtain ⟨kind, dest, src⟩ := op
  simp only [reads, moves_to, Bool.or_eq_false_iff, Bool.and_eq_true, beq_iff_eq, equals_iff] at hreads hmoves
  obtain ⟨rfl, rfl⟩ := hmoves
  have hsrc : src ≠ dest := by simpa [← equals_iff] using hreads.1
  simp only [execute]
  rw [read_update_of_ne hsrc, update_idem]

/-- An operation that does not touch the location commutes with a write to it. -/
lemma Op.execute_update (hreads : op.reads loc = false) (hmoves : op.moves_to loc = false) :
    op.execute constants (update store loc value) = update (op.execute constants store) loc value := by
  obtain ⟨kind, dest, src⟩ := op
  have hsrc : src ≠ loc := by
    rintro rfl
    simp [reads, equals] at hreads
  cases kind with
  | kNop => rfl
  | kMove =>
    have hdest : dest ≠ loc := by
      rintro rfl
      simp [moves_to, equals] at hmoves
    simp only [execute]
    rw [read_update_of_ne hsrc, update_comm hdest]
  | kSwap =>
    have hdest : dest ≠ loc := by
      rintro rfl
      simp [reads, equals] at hreads
    simp only [execute]
    rw [update_of_ne hsrc, update_of_ne hdest, update_comm hsrc, update_comm hdest]

/-- What the location holds is lost before anything reads it. -/
lemma MoveSchedule.execute_update {ops : MoveSchedule} (hreads : ∀ op ∈ ops, op.reads loc = false)
    (hmoves : ∃ op ∈ ops, op.moves_to loc = true) (store : Location → Val) :
    execute constants ops (update store loc value) = execute constants ops store := by
  induction ops generalizing store with
  | nil => simp at hmoves
  | cons op ops ih =>
    rw [forall_mem_cons] at hreads
    simp only [execute, foldl_cons] at ih ⊢
    cases hhead : op.moves_to loc with
    | true => rw [Op.execute_update_of_moves_to hreads.1 hhead]
    | false =>
      rw [Op.execute_update hreads.1 hhead]
      exact ih hreads.2 (by simpa [hhead] using hmoves) _

/-- Overwriting a scratch location right before the current operation of a schedule that
`Resolve` made leaves all the contents after the schedule as they are. -/
theorem ParallelMoveResolver.scratch_location_free (parallel_move : ParallelMoveInstr) (schedule : MoveSchedule) :
    resolve parallel_move = .ok schedule → ∀ i loc, schedule.is_scratch_location i loc = true →
      ∀ {Val : Type} (constants store : Location → Val) (value : Val), MoveSchedule.execute constants (schedule.drop i)
          (update (MoveSchedule.execute constants (schedule.take i) store) loc value) =
        schedule.execute constants store := by
  intro _ i loc hscratch Val constants store value
  simp only [is_scratch_location, Bool.and_eq_true, Bool.not_eq_true', any_eq_false,
    Bool.not_eq_true, any_eq_true] at hscratch
  obtain ⟨hreads, op, hop, hmoves⟩ := hscratch
  rw [← drop_drop] at hop
  rw [execute_update hreads ⟨op, mem_of_mem_drop hop, hmoves⟩, execute,
    execute, ← foldl_append, take_append_drop, execute]

/-- The destination of the second move is free during the first one. -/
def twoMoves : ParallelMoveInstr := ⟨[⟨⟨4⟩, ⟨8⟩⟩, ⟨⟨12⟩, ⟨16⟩⟩], by decide, by decide⟩

theorem ParallelMoveResolver.scratch_location_free_twoMoves :
    MoveSchedule.is_scratch_location [⟨.kMove, ⟨⟨4⟩, ⟨8⟩⟩⟩, ⟨.kMove, ⟨⟨12⟩, ⟨16⟩⟩⟩] 0 ⟨12⟩ = true ∧
      ∀ store : Location → Nat, MoveSchedule.execute store [⟨.kMove, ⟨⟨4⟩, ⟨8⟩⟩⟩, ⟨.kMove, ⟨⟨12⟩, ⟨16⟩⟩⟩]
        (update store ⟨12⟩ 0) = MoveSchedule.execute store [⟨.kMove, ⟨⟨4⟩, ⟨8⟩⟩⟩, ⟨.kMove, ⟨⟨12⟩, ⟨16⟩⟩⟩] store :=
  ⟨by decide, fun store => scratch_location_free twoMoves _ (by decide) 0 ⟨12⟩ (by decide) store store 0⟩

end dart.parallel_move_resolver
