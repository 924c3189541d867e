import DartVM.Lib.Loops
import DartVM.Lib.Routing
import DartVM.ParallelMove.Resolver

namespace dart.parallel_move_resolver
open Location (no_location)

namespace MoveOperands

/-- The condition asserted by `IsPending` and `IsEliminated`. -/
def WellFormed (self : MoveOperands) : Prop := self.src = no_location → self.dest = no_location

lemma eliminated_wellFormed : eliminated.WellFormed := fun _ => rfl

variable {self : MoveOperands} (h : self.WellFormed)
include h

lemma WellFormed.check : dart.check (!self.src.is_invalid || self.dest.is_invalid) = .ok () := by
  by_cases hs : self.src = no_location
  · simp [hs, h hs]
  · simp [hs]

lemma WellFormed.is_pending_eq : self.is_pending = .ok (decide (self.dest = no_location ∧ self.src ≠ no_location)) := by
  simp only [is_pending, h.check, ok_bind, pure_eq_ok, Except.ok.injEq]
  rw [Bool.eq_iff_iff]
  simp

lemma WellFormed.is_eliminated_eq : self.is_eliminated = .ok (decide (self.src = no_location)) := by
  simp only [is_eliminated, h.check, ok_bind, pure_eq_ok, Except.ok.injEq]
  rw [Bool.eq_iff_iff]
  simp

lemma WellFormed.blocks_eq (loc : Location) :
    self.blocks loc = .ok (decide (self.src ≠ no_location ∧ self.src = loc)) := by
  simp only [blocks, h.is_eliminated_eq, ok_bind, pure_eq_ok, Except.ok.injEq]
  rw [Bool.eq_iff_iff]
  simp

lemma WellFormed.is_redundant_eq :
    self.is_redundant = .ok (decide (self.dest = no_location ∨ self.src = self.dest)) := by
  simp only [is_redundant, h.is_eliminated_eq, ok_bind, pure_eq_ok, Except.ok.injEq]
  rw [Bool.eq_iff_iff]
  simp only [Bool.or_eq_true, decide_eq_true_eq, Location.is_invalid_iff, Location.equals_iff]
  constructor
  · rintro ((hs | hd) | he)
    · exact .inl (h hs)
    · exact .inl hd
    · exact .inr he
  · rintro (hd | he)
    · exact .inl (.inr hd)
    · exact .inr he

end MoveOperands

namespace ParallelMoveResolver

section
variable (self : ParallelMoveResolver)

/-- Source of the move at an index; eliminated moves and indices outside of the
move list have none. -/
def source (i : Nat) : Location :=
  (self.moves[i]?.map MoveOperands.src).getD no_location

def destination (i : Nat) : Location :=
  (self.moves[i]?.map MoveOperands.dest).getD no_location

/-- The moves that still have to be performed. -/
def Live (i : Nat) : Prop := self.source i ≠ no_location

end

variable {self : ParallelMoveResolver} {i : Nat} {move : MoveOperands}

lemma Live.lt (h : self.Live i) : i < self.moves.length := by
  by_contra hge
  apply h
  simp [source, List.getElem?_eq_none (Nat.le_of_not_lt hge)]

lemma getElem?_eq (h : i < self.moves.length) : self.moves[i]? = some ⟨self.destination i, self.source i⟩ := by
  simp [source, destination, List.getElem?_eq_getElem h]

lemma move_at_eq (h : i < self.moves.length) : self.move_at i = .ok ⟨self.destination i, self.source i⟩ := by
  simp [move_at, getElem?_eq h]

lemma source_of_getElem? (h : self.moves[i]? = some move) : self.source i = move.src := by
  simp [source, h]

lemma destination_of_getElem? (h : self.moves[i]? = some move) : self.destination i = move.dest := by
  simp [destination, h]

lemma source_set_move {index : Nat} (h : index < self.moves.length) (move : MoveOperands) (i : Nat) :
    (self.set_move index move).source i = if i = index then move.src else self.source i := by
  by_cases hi : i = index
  · subst hi
    simp [source, set_move, h]
  · simp [source, set_move, hi, List.getElem?_set_ne (Ne.symm hi)]

lemma destination_set_move {index : Nat} (h : index < self.moves.length) (move : MoveOperands) (i : Nat) :
    (self.set_move index move).destination i = if i = index then move.dest else self.destination i := by
  by_cases hi : i = index
  · subst hi
    simp [destination, set_move, h]
  · simp [destination, set_move, hi, List.getElem?_set_ne (Ne.symm hi)]

variable (self : ParallelMoveResolver)

@[simp] lemma length_set_move (index : Nat) (move : MoveOperands) :
    (self.set_move index move).moves.length = self.moves.length := by
  simp [set_move]

end ParallelMoveResolver

/-- The destinations of the initial move list: distinct cells. -/
structure Destinations where
  length : Nat
  dest : Nat → Location
  injective : ∀ i < length, ∀ j < length, dest i = dest j → i = j
  valid : ∀ i < length, dest i ≠ no_location
  not_constant : ∀ i < length, (dest i).is_constant = false

/-- The move graph while the moves in `stack` are being performed, innermost
first. A pending move reads a cell and has its destination cleared, every other
remaining move has its initial destination and is not redundant, and each move
on the stack reads the destination of the move it was performed for. -/
structure Graph (dests : Destinations) (stack : List Nat) (resolver : ParallelMoveResolver) : Prop where
  length_eq : resolver.moves.length = dests.length
  wellFormed : ∀ i, resolver.source i = no_location → resolver.destination i = no_location
  stack_nodup : stack.Nodup
  pending : ∀ i ∈ stack, resolver.Live i ∧ resolver.destination i = no_location
  pending_cell : ∀ i ∈ stack, (resolver.source i).is_constant = false
  idle : ∀ i, i ∉ stack → resolver.Live i →
    resolver.destination i = dests.dest i ∧ resolver.source i ≠ dests.dest i
  chain : stack.IsChain fun child parent => resolver.source child = dests.dest parent

namespace Graph
variable {dests : Destinations} {stack : List Nat} {self : ParallelMoveResolver} (h : Graph dests stack self)
include h

lemma lt_of_mem {i : Nat} (hi : i ∈ stack) : i < dests.length := h.length_eq ▸ (h.pending i hi).1.lt

lemma lt_of_live {i : Nat} (hi : self.Live i) : i < dests.length := h.length_eq ▸ hi.lt

lemma operands_wellFormed (i : Nat) :
    (⟨self.destination i, self.source i⟩ : MoveOperands).WellFormed := h.wellFormed i

lemma mem_wellFormed {move : MoveOperands} (hm : move ∈ self.moves) : move.WellFormed := by
  obtain ⟨i, hi⟩ := List.mem_iff_getElem?.mp hm
  have hsrc := ParallelMoveResolver.source_of_getElem? hi
  have hdest := ParallelMoveResolver.destination_of_getElem? hi
  intro hnone
  rw [← hdest]
  exact h.wellFormed i (hsrc.trans hnone)

/-- A pending move other than the outermost one reads the destination of the
next move on the stack. -/
lemma head_source {child parent : Nat} {rest : List Nat}
    (hstack : stack = child :: parent :: rest) : self.source child = dests.dest parent := by
  have hchain := h.chain
  rw [hstack, List.isChain_cons_cons] at hchain
  exact hchain.1

end Graph

/-- A routing of all locations that agrees with the remaining moves. -/
structure Routes (dests : Destinations) (resolver : ParallelMoveResolver)
    (route : Location → Location) : Prop where
  live : ∀ i, resolver.Live i → route (dests.dest i) = resolver.source i
  rest : ∀ loc, (∀ i, resolver.Live i → dests.dest i ≠ loc) → route loc = loc

/-- What the schedule built so far has achieved, from every store: following the
remaining moves once gives every location its final contents. -/
def Achieves {Val : Type} (constants : Location → Val) (goal : Location → Location)
    (self : ParallelMoveResolver) (route : Location → Location) : Prop :=
  ∀ store : Location → Val,
    routing.Realises (read constants (MoveSchedule.execute constants self.scheduled_ops store))
      route (read constants store ∘ goal)

open Function ParallelMoveResolver List

section
variable {Val : Type} (constants : Location → Val) {move : MoveOperands}

lemma execute_append (ops : List Op) (op : Op) (store : Location → Val) :
    MoveSchedule.execute constants (ops ++ [op]) store =
      op.execute constants (MoveSchedule.execute constants ops store) := by
  simp [MoveSchedule.execute]

/-- Writing a cell changes what is read from that cell only. -/
lemma read_update {dest : Location} (hdest : dest.is_constant = false) (store : Location → Val) (value : Val) :
    read constants (update store dest value) = update (read constants store) dest value := by
  funext loc
  by_cases hloc : loc = dest
  · subst hloc
    simp [read, hdest]
  · simp [read, update_of_ne hloc]

lemma read_move (hdest : move.dest.is_constant = false) (store : Location → Val) :
    read constants (Op.execute constants store ⟨.kMove, move⟩) =
      update (read constants store) move.dest (read constants store move.src) := read_update constants hdest store _

lemma read_swap (hdest : move.dest.is_constant = false)
    (hsrc : move.src.is_constant = false) (store : Location → Val) :
    read constants (Op.execute constants store ⟨.kSwap, move⟩) =
      read constants store ∘ Equiv.swap move.src move.dest := by
  simp only [Op.execute]
  rw [read_update constants hsrc, read_update constants hdest]
  funext loc
  by_cases hs : loc = move.src
  · subst hs
    simp [read, hdest]
  by_cases hd : loc = move.dest
  · subst hd
    simp [update_of_ne hs, read, hsrc]
  · simp [update_of_ne hs, update_of_ne hd, Equiv.swap_apply_of_ne_of_ne hs hd]

end

/-- How the move graph may change while the moves in `stack` are pending: moves
are only removed, no idle move starts to read a pending destination, and
constant sources stay. -/
structure Progress (dests : Destinations) (stack : List Nat)
    (before after : ParallelMoveResolver) : Prop where
  live : ∀ i, after.Live i → before.Live i
  blockers : ∀ p ∈ stack, ∀ i, i ∉ stack → after.Live i → after.source i = dests.dest p →
    before.source i = dests.dest p
  constants : ∀ i, (before.source i).is_constant = true → after.source i = before.source i

lemma Progress.refl (dests : Destinations) (stack : List Nat) (self : ParallelMoveResolver) :
    Progress dests stack self self := ⟨fun _ h => h, fun _ _ _ _ _ h => h, fun _ _ => rfl⟩

lemma Progress.trans {dests : Destinations} {stack : List Nat}
    {first second third : ParallelMoveResolver} (h : Progress dests stack first second)
    (h' : Progress dests stack second third) : Progress dests stack first third where
  live i hi := h.live i (h'.live i hi)
  blockers p hp i hi hlive hsrc := h.blockers p hp i hi (h'.live i hlive) (h'.blockers p hp i hi hlive hsrc)
  constants i hi := by
    have hfst := h.constants i hi
    rw [h'.constants i (by rwa [hfst]), hfst]

/-- The schedule achieves its part of `goal` with some routing of the moves. -/
def Sound {Val : Type} (constants : Location → Val) (dests : Destinations)
    (goal : Location → Location) (self : ParallelMoveResolver) : Prop :=
  ∃ route, Routes dests self route ∧ Achieves constants goal self route

variable {dests : Destinations} {stack : List Nat} {self : ParallelMoveResolver} {index : Nat}

/-- Marking a move as pending pushes it on the stack of pending moves. -/
lemma Graph.push (h : Graph dests stack self) (hlive : self.Live index) (hidle : index ∉ stack)
    (hcell : (self.source index).is_constant = false)
    (hpar : ∀ parent ∈ stack.head?, self.source index = dests.dest parent) :
    Graph dests (index :: stack) (self.set_move index ⟨no_location, self.source index⟩) := by
  have hlt := hlive.lt
  have hsrc (i : Nat) :
      (self.set_move index ⟨no_location, self.source index⟩).source i = self.source i := by
    rw [source_set_move hlt]
    split <;> simp_all
  refine ⟨by simpa using h.length_eq, ?_, nodup_cons.mpr ⟨hidle, h.stack_nodup⟩, ?_, ?_, ?_, ?_⟩
  · intro i hi
    rw [hsrc] at hi
    rw [destination_set_move hlt]
    split
    · rfl
    · exact h.wellFormed i hi
  · intro i hi
    rw [Live, hsrc, destination_set_move hlt]
    by_cases heq : i = index
    · subst heq
      exact ⟨hlive, by simp⟩
    · rw [if_neg heq]
      exact h.pending i ((mem_cons.mp hi).resolve_left heq)
  · intro i hi
    rw [hsrc]
    rcases mem_cons.mp hi with rfl | hi
    · exact hcell
    · exact h.pending_cell i hi
  · intro i hi hlivei
    rw [mem_cons, not_or] at hi
    rw [Live, hsrc] at hlivei
    rw [hsrc, destination_set_move hlt, if_neg hi.1]
    exact h.idle i hi.2 hlivei
  · simp only [hsrc]
    cases stack with
    | nil => exact .singleton _
    | cons parent rest =>
      rw [isChain_cons_cons]
      exact ⟨hpar parent rfl, h.chain⟩

/-- A routing only depends on the sources of the remaining moves. -/
lemma Routes.congr {other : ParallelMoveResolver} {route : Location → Location}
    (h : Routes dests self route) (hsrc : ∀ i, other.source i = self.source i) : Routes dests other route := by
  constructor
  · intro i hi
    rw [Live, hsrc] at hi
    rw [hsrc, h.live i hi]
  · intro loc hloc
    apply h.rest loc
    intro i hi
    exact hloc i (by rwa [Live, hsrc])

/-- The move graph after the innermost pending move has been taken out of it, for
any renaming of the sources that respects the moves still pending. -/
lemma Graph.pop {after : ParallelMoveResolver} (h : Graph dests (index :: stack) self)
    (hlen : after.moves.length = self.moves.length)
    (hidx : after.source index = no_location ∧ after.destination index = no_location)
    (hdest : ∀ i, i ≠ index → after.destination i = self.destination i)
    (hlive : ∀ i, i ≠ index → (after.Live i ↔ self.Live i)) (hcell : ∀ i ∈ stack, (after.source i).is_constant = false)
    (hidle : ∀ i, i ∉ index :: stack → self.Live i → after.source i ≠ dests.dest i)
    (hchain : stack.IsChain fun child parent => after.source child = dests.dest parent) : Graph dests stack after := by
  have hnotin : index ∉ stack := (nodup_cons.mp h.stack_nodup).1
  refine ⟨hlen.trans h.length_eq, ?_, (nodup_cons.mp h.stack_nodup).2, ?_, hcell, ?_, hchain⟩
  · intro i hi
    by_cases heq : i = index
    · exact heq ▸ hidx.2
    rw [hdest i heq]
    apply h.wellFormed i
    by_contra hne
    exact (hlive i heq).mpr hne hi
  · intro i hi
    have hne : i ≠ index := fun heq => hnotin (heq ▸ hi)
    rw [hlive i hne, hdest i hne]
    exact h.pending i (.tail _ hi)
  · intro i hi hlivei
    have hne : i ≠ index := by
      rintro rfl
      exact hlivei hidx.1
    have hmem : i ∉ index :: stack := by simp [hne, hi]
    have hold := (hlive i hne).mp hlivei
    rw [hdest i hne]
    exact ⟨(h.idle i hmem hold).1, hidle i hmem hold⟩

end dart.parallel_move_resolver
