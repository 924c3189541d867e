import Mathlib.Data.List.Nodup
import DartVM.ParallelMove.Perform

namespace dart.parallel_move_resolver
open MoveOperands List ParallelMoveResolver MoveSchedule Function

open Location (no_location)

/-- The resolver drops this move without performing it. -/
def MoveOperands.Redundant (self : MoveOperands) : Prop := self.is_redundant = .ok true

instance (self : MoveOperands) : Decidable self.Redundant :=
  inferInstanceAs (Decidable (self.is_redundant = .ok true))

/-- The moves that have to be performed. -/
def ParallelMoveInstr.worklist (self : ParallelMoveInstr) : List MoveOperands :=
  self.moves.filter fun move => ¬ move.Redundant

/-- The parallel assignment: each location receives the old contents of the
source of the move into it, or keeps its own contents. -/
def assignment (moves : List MoveOperands) (loc : Location) : Location :=
  ((moves.find? fun move => move.dest = loc).map MoveOperands.src).getD loc

variable {moves : List MoveOperands}

lemma assignment_of_mem (hnodup : (moves.map dest).Nodup)
    {move : MoveOperands} (hmem : move ∈ moves) : assignment moves move.dest = move.src := by
  have hfind : moves.find? (fun other => other.dest = move.dest) = some move := by
    induction moves with
    | nil => cases hmem
    | cons first moves ih =>
      rw [map_cons, nodup_cons] at hnodup
      rcases mem_cons.mp hmem with rfl | hrest
      · simp
      have hne : first.dest ≠ move.dest := fun heq =>
        hnodup.1 (heq ▸ mem_map_of_mem hrest)
      simpa [hne] using ih hnodup.2 hrest
  simp [assignment, hfind]

lemma assignment_of_not_dest {loc : Location} (h : ∀ move ∈ moves, move.dest ≠ loc) : assignment moves loc = loc := by
  have hfind : moves.find? (fun move => move.dest = loc) = none := by
    simpa using h
  simp [assignment, hfind]

section
variable (self : ParallelMoveInstr) {move : MoveOperands}

lemma ParallelMoveInstr.wellFormed (hmem : move ∈ self.moves) : move.WellFormed := self.operands_valid move hmem

lemma ParallelMoveInstr.worklist_spec (hmem : move ∈ self.worklist) :
    move ∈ self.moves ∧ move.dest ≠ no_location ∧ move.src ≠ no_location ∧ move.src ≠ move.dest := by
  obtain ⟨hmoves, hred⟩ := mem_filter.mp hmem
  have hwf := self.wellFormed hmoves
  simp only [Redundant, hwf.is_redundant_eq, Except.ok.injEq, decide_eq_true_eq, not_or] at hred
  exact ⟨hmoves, hred.1, fun hsrc => hred.1 (hwf hsrc), hred.2⟩

lemma build_initial_move_list_eq : build_initial_move_list self = .ok self.worklist := by
  have hfold : ∀ (moves : List MoveOperands), (∀ move ∈ moves, move ∈ self.moves) → ∀ acc,
      moves.foldlM (fun (acc : List MoveOperands) move => do
        if ← move.is_redundant then return acc else return acc ++ [move]) acc =
        .ok (acc ++ moves.filter fun move => ¬ move.Redundant) := by
    intro moves hsub
    induction moves with
    | nil => simp
    | cons move moves ih =>
      intro acc
      have hwf := self.wellFormed (hsub move (by simp))
      have hrest := ih fun m hm => hsub m (by simp [hm])
      by_cases hred : move.Redundant
      · rw [foldlM_cons, show move.is_redundant = .ok true from hred]
        simpa [hred] using hrest acc
      have hfalse : move.is_redundant = .ok false := by
        rw [Redundant, hwf.is_redundant_eq] at hred
        rw [hwf.is_redundant_eq]
        simpa using hred
      rw [foldlM_cons, hfalse]
      simpa [hred] using hrest (acc ++ [move])
  simpa [build_initial_move_list, ParallelMoveInstr.worklist] using hfold self.moves (fun _ h => h) []

/-- The destinations of the worklist, when they are distinct. -/
def ParallelMoveInstr.destinations (hdistinct : (self.worklist.map MoveOperands.dest).Nodup) : Destinations where
  length := self.worklist.length
  dest i := (self.worklist[i]?.map MoveOperands.dest).getD no_location
  injective i hi j hj heq := by
    simp only [List.getElem?_eq_getElem hi, List.getElem?_eq_getElem hj, Option.map_some, Option.getD_some] at heq
    have hi' : i < (self.worklist.map MoveOperands.dest).length := by simpa using hi
    have hj' : j < (self.worklist.map MoveOperands.dest).length := by simpa using hj
    have hmap : (self.worklist.map MoveOperands.dest)[i] = (self.worklist.map MoveOperands.dest)[j] := by
      simpa using heq
    exact hdistinct.getElem_inj_iff.mp hmap
  valid i hi := by
    simpa [List.getElem?_eq_getElem hi] using
      (self.worklist_spec (List.getElem_mem hi)).2.1
  not_constant i hi := by
    simpa [List.getElem?_eq_getElem hi] using
      self.dest_not_constant _ (self.worklist_spec (List.getElem_mem hi)).1

/-- Nothing is pending and nothing scheduled when the main loop starts. -/
lemma ParallelMoveInstr.initial_spec {Val : Type} (constants : Location → Val)
    (hdist : (self.worklist.map dest).Nodup) : Graph (self.destinations hdist) [] ⟨self.worklist, []⟩ ∧
      Sound constants (self.destinations hdist) (assignment self.worklist) ⟨self.worklist, []⟩ := by
  have hat {i : Nat} (hi : (⟨self.worklist, []⟩ : ParallelMoveResolver).Live i) :
      ∃ move ∈ self.worklist, self.worklist[i]? = some move := by
    have hlt := hi.lt
    exact ⟨_, getElem_mem hlt, getElem?_eq_getElem hlt⟩
  refine ⟨⟨rfl, ?_, nodup_nil, by simp, by simp, ?_, .nil⟩, assignment self.worklist, ⟨?_, ?_⟩, ?_⟩
  · intro i hi
    cases hget : self.worklist[i]? with
    | none => simp [destination, hget]
    | some move =>
      have hmem := mem_of_getElem? hget
      rw [source_of_getElem? hget] at hi
      exact absurd hi (self.worklist_spec hmem).2.2.1
  · intro i _ hi
    obtain ⟨move, hmem, hget⟩ := hat hi
    simpa [destination, source, destinations, hget] using (self.worklist_spec hmem).2.2.2
  · intro i hi
    obtain ⟨move, hmem, hget⟩ := hat hi
    simpa [source, destinations, hget] using assignment_of_mem hdist hmem
  · intro loc hloc
    apply assignment_of_not_dest
    intro move hmem
    obtain ⟨i, hget⟩ := mem_iff_getElem?.mp hmem
    have hlive : (⟨self.worklist, []⟩ : ParallelMoveResolver).Live i := by
      rw [Live, source_of_getElem? hget]
      exact (self.worklist_spec hmem).2.2.1
    simpa [destinations, hget] using hloc i hlive
  · intro store
    rfl

variable {Val : Type} (constants : Location → Val) {moves : List MoveOperands}

lemma schedule_constants_eq (hwf : ∀ move ∈ moves, move.WellFormed)
    (hconst : ∀ move ∈ moves, move.src ≠ no_location → move.src.is_constant = true) (ops : List Op) :
    schedule_constants ops moves =
      .ok (ops ++ (moves.filter fun move => move.src ≠ no_location).map fun move => ⟨.kMove, move⟩) := by
  induction moves generalizing ops with
  | nil => simp [schedule_constants]
  | cons move moves ih =>
    have hrest := ih (fun m hm => hwf m (by simp [hm])) (fun m hm => hconst m (by simp [hm]))
    simp only [schedule_constants, (hwf move (by simp)).is_eliminated_eq, ok_bind]
    by_cases hsrc : move.src = no_location
    · simpa [hsrc] using hrest ops
    · have hnext := hrest (ops ++ [⟨.kMove, move⟩])
      simpa [hsrc, hconst move (by simp) hsrc] using hnext

/-- Moves from constants into distinct cells do not block each other. -/
lemma execute_constant_moves (hnodup : (moves.map dest).Nodup) (hdest : ∀ move ∈ moves, move.dest.is_constant = false)
    (hsrc : ∀ move ∈ moves, move.src.is_constant = true) {route : Location → Location}
    {goal : Location → Val} (store : Location → Val) (hroute : ∀ move ∈ moves, route move.dest = move.src)
    (hrest : ∀ loc, (∀ move ∈ moves, move.dest ≠ loc) → route loc = loc)
    (h : routing.Realises (read constants store) route goal) :
    read constants (execute constants (moves.map fun move => ⟨.kMove, move⟩) store) = goal := by
  induction moves generalizing store route with
  | nil => exact h.finished fun loc => hrest loc (by simp)
  | cons move moves ih =>
    rw [map_cons, nodup_cons] at hnodup
    have hcell := hdest move (by simp)
    have hne (other : MoveOperands) (hother : other ∈ moves) : other.dest ≠ move.dest := fun heq =>
      hnodup.1 (heq ▸ mem_map_of_mem hother)
    have hfree : ∀ loc, loc ≠ move.dest → route loc ≠ move.dest := by
      intro loc hloc hto
      by_cases hmem : ∃ other ∈ move :: moves, other.dest = loc
      · obtain ⟨other, hother, rfl⟩ := hmem
        have hconst := hsrc other hother
        rw [← hroute other hother, hto, hcell] at hconst
        cases hconst
      apply hloc
      rw [← hto, hrest loc]
      intro other hother heq
      exact hmem ⟨other, hother, heq⟩
    have hstep := h.move move.dest hfree
    rw [hroute move (by simp), ← read_move constants hcell] at hstep
    refine ih hnodup.2 (fun m hm => hdest m (by simp [hm])) (fun m hm => hsrc m (by simp [hm])) _ ?_ ?_ hstep
    · intro other hother
      rw [update_of_ne (hne other hother), hroute other (by simp [hother])]
    · intro loc hloc
      by_cases heq : loc = move.dest
      · simp [heq]
      rw [update_of_ne heq, hrest loc]
      intro other hother
      rcases mem_cons.mp hother with rfl | hother
      · exact Ne.symm heq
      · exact hloc other hother

lemma execute_of_ops (ops : List Op) (store : Location → Val) : execute constants (of_ops ops) store =
      execute constants ops store := by
  induction ops generalizing store with
  | nil => rfl
  | cons op ops ih =>
    by_cases hkind : op.kind = .kNop
    · simpa [of_ops, execute, hkind, Op.execute] using ih store
    · simpa [of_ops, execute, hkind] using ih (op.execute constants store)

end

/-- The main loop of `Resolve` returns with only moves from constants left. -/
lemma resolve_loop_spec {Val : Type} {constants : Location → Val} {goal : Location → Location}
    {dests : Destinations} {self : ParallelMoveResolver} (h : Graph dests [] self)
    (hsound : Sound constants dests goal self) : ∃ after, (range dests.length).foldlM
        (resolve_move dests.length) self = .ok after ∧ Graph dests [] after ∧ Sound constants dests goal after ∧
      ∀ i, after.Live i → (after.source i).is_constant = true := by
  obtain ⟨after, hloop, hgraph, hafter, hdone⟩ := loops.foldlM_range_spec
    (resolve_move dests.length)
    (fun k s => Graph dests [] s ∧ Sound constants dests goal s ∧
      ∀ i < k, s.Live i → (s.source i).is_constant = true) dests.length
    (by
      intro k s hk ⟨hg, hs, hd⟩
      have hks : k < s.moves.length := hg.length_eq.symm ▸ hk
      have hwf := hg.operands_wellFormed k
      simp only [resolve_move, move_at_eq hks, hwf.is_eliminated_eq, ok_bind]
      by_cases hmove : s.Live k ∧ (s.source k).is_constant = false
      · obtain ⟨hlive, hcell⟩ := hmove
        obtain ⟨t, hrun, hgt, hst, hdead, hpt⟩ := perform_move_spec dests.length
          hg hs hlive (by simp) hcell (by simp) (by simp)
        refine ⟨t, ?_, hgt, hst, ?_⟩
        · rw [if_pos (by simpa [hcell] using show s.source k ≠ no_location from hlive)]
          exact hrun
        · intro i hi hlivei
          rcases Nat.lt_succ_iff_lt_or_eq.mp hi with hi | rfl
          · have hconst := hd i hi (hpt.live i hlivei)
            rwa [hpt.constants i hconst]
          · exact absurd hlivei hdead
      · refine ⟨s, ?_, hg, hs, ?_⟩
        · rw [if_neg]
          · rfl
          · simpa [Live] using hmove
        · intro i hi hlivei
          rcases Nat.lt_succ_iff_lt_or_eq.mp hi with hi | rfl
          · exact hd i hi hlivei
          · simpa [hlivei] using hmove)
    self ⟨h, hsound, by simp⟩
  exact ⟨after, hloop, hgraph, hafter, fun i hi => hdone i (hgraph.lt_of_live hi) hi⟩

/-- The schedule of a parallel move with distinct destinations computes the
parallel assignment of its worklist. -/
lemma ParallelMoveResolver.resolve_spec {Val : Type} (constants : Location → Val) (parallel_move : ParallelMoveInstr)
    (hdist : (parallel_move.worklist.map dest).Nodup) : ∃ schedule, resolve parallel_move = .ok schedule ∧
      ∀ store : Location → Val, read constants (schedule.execute constants store) =
        read constants store ∘ assignment parallel_move.worklist := by
  obtain ⟨hgraph, hsound⟩ := parallel_move.initial_spec constants hdist
  obtain ⟨after, hloop, hafter, ⟨route, hroutes, hach⟩, hconst⟩ := resolve_loop_spec hgraph hsound
  set remaining := after.moves.filter fun move => move.src ≠ no_location with hrem
  have hlive {move : MoveOperands} (hmem : move ∈ remaining) : ∃ i, after.Live i ∧
      after.moves[i]? = some move ∧ move.dest = (parallel_move.destinations hdist).dest i := by
    obtain ⟨hmoves, hsrc⟩ := mem_filter.mp hmem
    obtain ⟨i, hi⟩ := mem_iff_getElem?.mp hmoves
    have hlivei : after.Live i := by
      rw [Live, source_of_getElem? hi]
      simpa using hsrc
    rw [← destination_of_getElem? hi]
    exact ⟨i, hlivei, hi, (hafter.idle i (by simp) hlivei).1⟩
  have hschedule := schedule_constants_eq (fun _ hmem => hafter.mem_wellFormed hmem)
    (by
      intro move hmem hsrc
      obtain ⟨i, hi⟩ := mem_iff_getElem?.mp hmem
      rw [← source_of_getElem? hi] at hsrc ⊢
      exact hconst i hsrc) after.scheduled_ops
  have hnodup : (remaining.map dest).Nodup := by
    rw [Nodup, pairwise_map, hrem, pairwise_filter, pairwise_iff_getElem]
    intro i j hi hj hlt hsrci hsrcj heq
    have hdest (k : Nat) (hk : k < after.moves.length) (hsrc : after.moves[k].src ≠ no_location) :
        after.moves[k].dest = (parallel_move.destinations hdist).dest k := by
      have hget := getElem?_eq_getElem hk
      rw [← destination_of_getElem? hget]
      exact (hafter.idle k (by simp) (by rwa [Live, source_of_getElem? hget])).1
    rw [hdest i hi (by simpa using hsrci), hdest j hj (by simpa using hsrcj)] at heq
    have := (parallel_move.destinations hdist).injective i (hafter.length_eq ▸ hi) j (hafter.length_eq ▸ hj) heq
    omega
  refine ⟨of_ops (after.scheduled_ops ++ remaining.map fun move => ⟨.kMove, move⟩), ?_, ?_⟩
  · simp only [resolve, build_initial_move_list_eq, ok_bind]
    rw [show parallel_move.worklist.length = (parallel_move.destinations hdist).length from rfl,
      hloop, ok_bind, hschedule]
    rfl
  · intro store
    rw [execute_of_ops, execute, foldl_append]
    refine execute_constant_moves constants hnodup ?_ ?_ _ ?_ ?_ (hach store)
    · intro move hmem
      obtain ⟨i, hi, -, hdest⟩ := hlive hmem
      rw [hdest]
      exact (parallel_move.destinations hdist).not_constant i (hafter.lt_of_live hi)
    · intro move hmem
      obtain ⟨i, hi, hget, -⟩ := hlive hmem
      rw [← source_of_getElem? hget]
      exact hconst i hi
    · intro move hmem
      obtain ⟨i, hi, hget, hdest⟩ := hlive hmem
      rw [hdest, hroutes.live i hi, source_of_getElem? hget]
    · intro loc hloc
      apply hroutes.rest loc
      intro i hi
      have hget := getElem?_eq hi.lt
      rw [← (hafter.idle i (by simp) hi).1]
      apply hloc ⟨after.destination i, after.source i⟩
      rw [hrem, mem_filter]
      exact ⟨mem_of_getElem? hget, by simpa using show after.source i ≠ no_location from hi⟩

/-- `Resolve` returns for every parallel move whose non-redundant moves have
distinct destinations: no assertion fails and the recursion is bounded. Executing
its schedule from any store performs all moves at once. Each destination holds
what its source held before, and all other locations keep their contents. -/
theorem ParallelMoveResolver.resolve_correct (parallel_move : ParallelMoveInstr)
    (hdistinct : (parallel_move.worklist.map MoveOperands.dest).Nodup) :
    ∃ schedule, ParallelMoveResolver.resolve parallel_move = .ok schedule ∧
      ∀ {Val : Type} (constants store : Location → Val), (∀ move ∈ parallel_move.moves, ¬ move.Redundant →
          read constants (schedule.execute constants store) move.dest = read constants store move.src) ∧
        (∀ loc, (∀ move ∈ parallel_move.moves, ¬ move.Redundant → move.dest ≠ loc) →
          read constants (schedule.execute constants store) loc = read constants store loc) := by
  obtain ⟨schedule, hresolve, -⟩ := resolve_spec (fun _ => ()) parallel_move hdistinct
  refine ⟨schedule, hresolve, ?_⟩
  intro Val constants store
  obtain ⟨schedule', hresolve', hexecute⟩ := resolve_spec constants parallel_move hdistinct
  obtain rfl : schedule = schedule' := Except.ok.inj (hresolve.symm.trans hresolve')
  rw [hexecute store]
  constructor
  · intro move hmem hred
    have hwork : move ∈ parallel_move.worklist := mem_filter.mpr ⟨hmem, by simpa using hred⟩
    rw [comp_apply, assignment_of_mem hdistinct hwork]
  · intro loc hloc
    rw [comp_apply, assignment_of_not_dest]
    intro move hmem
    obtain ⟨hmoves, hred⟩ := mem_filter.mp hmem
    exact hloc move hmoves (by simpa using hred)

/-- A cycle of three cells, a second reader of one of them, and a constant. -/
def cycleWithFanOut : ParallelMoveInstr where
  moves := [⟨⟨4⟩, ⟨8⟩⟩, ⟨⟨8⟩, ⟨12⟩⟩, ⟨⟨12⟩, ⟨4⟩⟩, ⟨⟨16⟩, ⟨4⟩⟩, ⟨⟨20⟩, ⟨5⟩⟩]
  operands_valid := by decide
  dest_not_constant := by decide

theorem ParallelMoveResolver.resolve_cycleWithFanOut : (cycleWithFanOut.worklist.map MoveOperands.dest).Nodup ∧
      ∃ schedule, ParallelMoveResolver.resolve cycleWithFanOut = .ok schedule ∧ ∀ constants store : Location → Nat,
          read constants (schedule.execute constants store) ⟨12⟩ = store ⟨4⟩ ∧
          read constants (schedule.execute constants store) ⟨20⟩ = constants ⟨5⟩ := by
  refine ⟨by decide, ?_⟩
  obtain ⟨schedule, hresolve, hexecute⟩ :=
    resolve_correct cycleWithFanOut (by decide)
  refine ⟨schedule, hresolve, fun constants store => ⟨?_, ?_⟩⟩
  · exact (hexecute constants store).1 ⟨⟨12⟩, ⟨4⟩⟩ (by decide) (by decide)
  · exact (hexecute constants store).1 ⟨⟨20⟩, ⟨5⟩⟩ (by decide) (by decide)

end dart.parallel_move_resolver
