import DartVM.ParallelMove.Invariant

namespace dart.parallel_move_resolver
open Equiv ParallelMoveResolver Function List

open Location (no_location)

namespace ParallelMoveResolver

/-- The move graph without the move at `index`, after `ops` were scheduled. -/
def drop (self : ParallelMoveResolver) (index : Nat) (ops : List Op) : ParallelMoveResolver :=
  { moves := self.moves.set index MoveOperands.eliminated
    scheduled_ops := self.scheduled_ops ++ ops }

/-- Exchanges two locations in the sources of all remaining moves. -/
def rename (self : ParallelMoveResolver) (a b : Location) : ParallelMoveResolver :=
  { self with moves := self.moves.map fun move => { move with src := Equiv.swap a b move.src } }

variable {self : ParallelMoveResolver} {moves : List MoveOperands} {a b : Location}

lemma source_drop {index : Nat} (h : index < self.moves.length) (ops : List Op) (i : Nat) :
    (self.drop index ops).source i = if i = index then no_location else self.source i :=
  source_set_move h MoveOperands.eliminated i

lemma destination_drop {index : Nat} (h : index < self.moves.length) (ops : List Op) (i : Nat) :
    (self.drop index ops).destination i = if i = index then no_location else self.destination i :=
  destination_set_move h MoveOperands.eliminated i

lemma source_rename (self : ParallelMoveResolver) (ha : a ≠ no_location)
    (hb : b ≠ no_location) (i : Nat) : (self.rename a b).source i = swap a b (self.source i) := by
  cases hi : self.moves[i]? with
  | none => simp [source, rename, hi, swap_apply_of_ne_of_ne ha.symm hb.symm]
  | some move => simp [source, rename, hi]

lemma destination_rename (self : ParallelMoveResolver) (a b : Location) (i : Nat) :
    (self.rename a b).destination i = self.destination i := by
  cases hi : self.moves[i]? <;> simp [destination, rename, hi]

lemma find_blocking_eq {destination : Location} (hok : destination ≠ no_location) (hwf : ∀ move ∈ moves, move.WellFormed)
    (hpend : ∀ move ∈ moves, move.src = destination → move.dest = no_location) :
    find_blocking destination moves = .ok (decide (∃ move ∈ moves, move.src = destination)) := by
  induction moves with
  | nil => simp [find_blocking]
  | cons move moves ih =>
    have hmove := hwf move (by simp)
    simp only [find_blocking, hmove.blocks_eq, hmove.is_pending_eq, ok_bind]
    by_cases hsrc : move.src = destination
    · have hdest := hpend move (by simp) hsrc
      simp [hsrc, hdest, hok]
    · rw [ih (fun m hm => hwf m (by simp [hm])) (fun m hm => hpend m (by simp [hm]))]
      simp [hsrc]

/-- Renaming the sources one move at a time is the exchange of the two
locations; eliminated moves have no source to rename. -/
lemma rename_mapM_eq (ha : a ≠ no_location) (hb : b ≠ no_location) (hwf : ∀ move ∈ moves, move.WellFormed) :
    (moves.mapM fun other_move => do
      if ← other_move.blocks a then
        return { other_move with src := b }
      else if ← other_move.blocks b then
        return { other_move with src := a }
      else
        return other_move) =
      .ok (moves.map fun move => { move with src := swap a b move.src }) := by
  induction moves with
  | nil => rfl
  | cons move moves ih =>
    have hmove := hwf move (by simp)
    rw [mapM_cons, ih fun m hm => hwf m (by simp [hm])]
    simp only [hmove.blocks_eq, ok_bind, pure_eq_ok]
    by_cases hsa : move.src = a
    · simp [hsa, ha]
    by_cases hsb : move.src = b
    · by_cases hba : b = a <;> simp_all
    · simp [hsa, hsb, swap_apply_of_ne_of_ne hsa hsb]

end ParallelMoveResolver

variable {Val : Type} {constants : Location → Val} {goal : Location → Location}
variable {dests : Destinations} {stack : List Nat} {self : ParallelMoveResolver} {index : Nat}

section
variable (h : Graph dests (index :: stack) self)
include h

/-- The sources of all moves stay the same when only the innermost pending move
is taken out of the graph. -/
lemma Graph.drop (ops : List Op) :
    Graph dests stack (self.drop index ops) ∧ Progress dests stack self (self.drop index ops) := by
  have hlt := (h.pending index (by simp)).1.lt
  have hsource (i : Nat) (hne : i ≠ index) : (self.drop index ops).source i = self.source i := by
    rw [source_drop hlt, if_neg hne]
  have hnotin : index ∉ stack := (nodup_cons.mp h.stack_nodup).1
  constructor
  · apply h.pop
    · simp [ParallelMoveResolver.drop]
    · simp [source_drop hlt, destination_drop hlt]
    · intro i hne
      rw [destination_drop hlt, if_neg hne]
    · intro i hne
      rw [Live, hsource i hne, Live]
    · intro i hi
      rw [hsource i fun heq => hnotin (heq ▸ hi)]
      exact h.pending_cell i (.tail _ hi)
    · intro i hi hlive
      rw [hsource i fun heq => hi (by simp [heq])]
      exact (h.idle i hi hlive).2
    · apply h.chain.tail.imp_of_mem_imp
      intro child parent hchild _ hsrc
      rw [hsource child fun heq => hnotin (heq ▸ hchild)]
      exact hsrc
  · have hne (i : Nat) (hi : (self.drop index ops).Live i) : i ≠ index := by
      rintro rfl
      simp [Live, source_drop hlt] at hi
    constructor
    · intro i hi
      rwa [Live, hsource i (hne i hi)] at hi
    · intro p _ i _ hi hsrc
      rwa [hsource i (hne i hi)] at hsrc
    · intro i hi
      apply hsource i
      rintro rfl
      simp [h.pending_cell i (by simp)] at hi

variable (hsound : Sound constants dests goal self)
include hsound

/-- The last move of a cycle: its destination already has the right contents. -/
lemma Graph.finish_trivial (heq : self.source index = dests.dest index) :
    Sound constants dests goal (self.drop index []) := by
  have hlive := (h.pending index (by simp)).1
  obtain ⟨route, hroutes, hach⟩ := hsound
  refine ⟨route, ⟨?_, ?_⟩, by simpa [Achieves, ParallelMoveResolver.drop] using hach⟩
  · intro i hi
    rw [Live, source_drop hlive.lt] at hi
    rw [source_drop hlive.lt]
    split at hi
    · exact absurd rfl hi
    · rw [if_neg ‹_›, hroutes.live i hi]
  · intro loc hloc
    by_cases hidx : dests.dest index = loc
    · rw [← hidx, hroutes.live index hlive, heq]
    apply hroutes.rest loc
    intro i hi
    by_cases hi' : i = index
    · exact hi' ▸ hidx
    · exact hloc i (by rwa [Live, source_drop hlive.lt, if_neg hi'])

/-- A move that nothing is blocked on is scheduled as a copy. -/
lemma Graph.finish_move (hfree : ∀ i, self.Live i → self.source i ≠ dests.dest index) : Sound constants dests goal
      (self.drop index [⟨.kMove, ⟨dests.dest index, self.source index⟩⟩]) := by
  have hlive := (h.pending index (by simp)).1
  have hlt := h.lt_of_live hlive
  obtain ⟨route, hroutes, hach⟩ := hsound
  have hroute := hroutes.live index hlive
  refine ⟨update route (dests.dest index) (dests.dest index), ⟨?_, ?_⟩, ?_⟩
  · intro i hi
    rw [Live, source_drop hlive.lt] at hi
    rw [source_drop hlive.lt]
    split at hi
    · exact absurd rfl hi
    · rename_i hne
      have hdest : dests.dest i ≠ dests.dest index := fun he =>
        hne (dests.injective i (h.lt_of_live hi) index hlt he)
      rw [if_neg hne, update_of_ne hdest, hroutes.live i hi]
  · intro loc hloc
    by_cases hidx : loc = dests.dest index
    · simp [hidx]
    rw [update_of_ne hidx]
    apply hroutes.rest loc
    intro i hi
    by_cases hi' : i = index
    · exact hi' ▸ Ne.symm hidx
    · exact hloc i (by rwa [Live, source_drop hlive.lt, if_neg hi'])
  · intro store
    have hmove := (hach store).move (dests.dest index) (by
      intro loc hne hto
      by_cases hdest : ∃ i, self.Live i ∧ dests.dest i = loc
      · obtain ⟨i, hi, rfl⟩ := hdest
        exact hfree i hi (by rw [← hroutes.live i hi, hto])
      apply hne
      rw [← hto, hroutes.rest loc]
      intro i hi heq
      exact hdest ⟨i, hi, heq⟩)
    simp only [ParallelMoveResolver.drop, execute_append]
    rw [read_move constants (dests.not_constant index hlt)]
    simpa only [hroute] using hmove

end

/-- A move blocked on a pending move closes a cycle. It reads the destination of
the next pending move, so exchanging its operands disturbs no finished move. -/
lemma Graph.finish_swap {parent : Nat} {rest : List Nat} (h : Graph dests (index :: parent :: rest) self)
    (hsound : Sound constants dests goal self)
    (hfree : ∀ i, i ∉ index :: parent :: rest → self.Live i → self.source i ≠ dests.dest index) :
    let after := (self.drop index [⟨.kSwap, ⟨dests.dest index, self.source index⟩⟩]).rename
      (self.source index) (dests.dest index)
    Graph dests (parent :: rest) after ∧ Sound constants dests goal after ∧
      Progress dests (parent :: rest) self after := by
  intro after
  have hlive := (h.pending index (by simp)).1
  have hlt := h.lt_of_live hlive
  have hpar := h.head_source rfl
  have hparentLt : parent < dests.length := h.lt_of_mem (by simp)
  have hnotin : index ∉ parent :: rest := (nodup_cons.mp h.stack_nodup).1
  have hok := dests.valid index hlt
  have hsource (i : Nat) : after.source i =
      if i = index then no_location else Equiv.swap (self.source index) (dests.dest index) (self.source i) := by
    rw [ParallelMoveResolver.source_rename _ hlive hok, ParallelMoveResolver.source_drop hlive.lt]
    split
    · exact Equiv.swap_apply_of_ne_of_ne hlive.symm hok.symm
    · rfl
  have hliveIff (i : Nat) (hne : i ≠ index) : after.Live i ↔ self.Live i := by
    rw [ParallelMoveResolver.Live, hsource, if_neg hne, ParallelMoveResolver.Live, Ne,
      Equiv.swap_apply_eq_iff, Equiv.swap_apply_of_ne_of_ne hlive.symm hok.symm]
  have hne_of_live (i : Nat) (hi : after.Live i) : i ≠ index := by
    rintro rfl
    simp [ParallelMoveResolver.Live, hsource] at hi
  have hsrcCell : (self.source index).is_constant = false := h.pending_cell index (by simp)
  have hdestCell : (dests.dest index).is_constant = false := dests.not_constant index hlt
  have hsourceIdle (i : Nat) (hi : i ∉ index :: parent :: rest) (hlivei : self.Live i) :
      after.source i = if self.source i = self.source index then dests.dest index else self.source i := by
    have hne : i ≠ index := fun heq => hi (by simp [heq])
    rw [hsource, if_neg hne, Equiv.swap_apply_def, if_neg (hfree i hi hlivei)]
  refine ⟨?_, ?_, ?_⟩
  · apply h.pop
    · simp [after, ParallelMoveResolver.rename, ParallelMoveResolver.drop]
    · rw [hsource, if_pos rfl, ParallelMoveResolver.destination_rename,
        ParallelMoveResolver.destination_drop hlive.lt, if_pos rfl]
      exact ⟨rfl, rfl⟩
    · intro i hne
      rw [ParallelMoveResolver.destination_rename, ParallelMoveResolver.destination_drop hlive.lt, if_neg hne]
    · exact hliveIff
    · intro i hi
      rw [hsource, if_neg (fun heq : i = index => hnotin (heq ▸ hi)), Equiv.swap_apply_def]
      split
      · exact hdestCell
      · split
        · exact hsrcCell
        · exact h.pending_cell i (.tail _ hi)
    · intro i hi hlivei
      rw [hsourceIdle i hi hlivei]
      split
      · intro heq
        exact hi (by simp [dests.injective index hlt i (h.lt_of_live hlivei) heq])
      · exact (h.idle i hi hlivei).2
    · apply h.chain.tail.imp_of_mem_tail_imp
      intro child next hchild hnext hsrc
      have hnextLt : next < dests.length := h.lt_of_mem (by simp_all)
      have hnextParent : dests.dest next ≠ self.source index := by
        rw [hpar]
        intro heq
        have := dests.injective next hnextLt parent hparentLt heq
        subst this
        exact (nodup_cons.mp (nodup_cons.mp h.stack_nodup).2).1 hnext
      have hnextIndex : dests.dest next ≠ dests.dest index := by
        intro heq
        have := dests.injective next hnextLt index hlt heq
        subst this
        exact hnotin (.tail _ hnext)
      rw [hsource, if_neg (fun heq : child = index => hnotin (heq ▸ hchild)), hsrc,
        Equiv.swap_apply_of_ne_of_ne hnextParent hnextIndex]
  · obtain ⟨route, hroutes, hach⟩ := hsound
    refine ⟨Equiv.swap (self.source index) (dests.dest index) ∘ route, ⟨?_, ?_⟩, ?_⟩
    · intro i hi
      have hne := hne_of_live i hi
      rw [Function.comp_apply, hroutes.live i ((hliveIff i hne).mp hi), hsource, if_neg hne]
    · intro loc hloc
      rw [Function.comp_apply]
      by_cases hidx : loc = dests.dest index
      · rw [hidx, hroutes.live index hlive, Equiv.swap_apply_left]
      have hlocSrc : loc ≠ self.source index := by
        rw [hpar]
        have hne : parent ≠ index := fun heq => hnotin (by simp [heq])
        exact Ne.symm (hloc parent ((hliveIff parent hne).mpr (h.pending parent (by simp)).1))
      rw [hroutes.rest loc, Equiv.swap_apply_of_ne_of_ne hlocSrc hidx]
      intro i hi
      by_cases hi' : i = index
      · exact hi' ▸ Ne.symm hidx
      · exact hloc i ((hliveIff i hi').mpr hi)
    · intro store
      simp only [after, ParallelMoveResolver.rename, ParallelMoveResolver.drop, execute_append]
      rw [read_swap constants hdestCell hsrcCell]
      exact (hach store).swap _ _
  · constructor
    · intro i hi
      exact (hliveIff i (hne_of_live i hi)).mp hi
    · intro p hp i hi hlivei hsrc
      have hne := hne_of_live i hlivei
      have hmem : i ∉ index :: parent :: rest := by
        rw [mem_cons, not_or]
        exact ⟨hne, hi⟩
      rw [hsourceIdle i hmem ((hliveIff i hne).mp hlivei)] at hsrc
      split at hsrc
      · have hp' := dests.injective index hlt p (h.lt_of_mem (.tail _ hp)) hsrc
        exact absurd (hp' ▸ hp) hnotin
      · exact hsrc
    · intro i hi
      have hne : i ≠ index := by
        rintro rfl
        simp [hsrcCell] at hi
      rw [hsource, if_neg hne, Equiv.swap_apply_of_ne_of_ne]
      · rintro heq
        simp [heq, hsrcCell] at hi
      · rintro heq
        simp [heq, hdestCell] at hi

end dart.parallel_move_resolver
