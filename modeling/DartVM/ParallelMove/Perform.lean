import Mathlib.Data.List.Perm.Subperm
import DartVM.ParallelMove.Finish

namespace dart.parallel_move_resolver
open MoveOperands List

open Location (no_location)
variable {Val : Type} {constants : Location → Val} {goal : Location → Location}
variable {dests : Destinations}

namespace ParallelMoveResolver

/-- The end of `PerformMove` takes the innermost pending move out of the graph.
All remaining readers of its destination are pending, and there is one exactly
when the move closes a cycle. -/
lemma finish_move_spec {stack : List Nat} {self : ParallelMoveResolver} {index : Nat}
    (h : Graph dests (index :: stack) self) (hsound : Sound constants dests goal self)
    (hfree : ∀ i, i ∉ index :: stack → self.Live i → self.source i ≠ dests.dest index) :
    ∃ after, self.finish_move index (dests.dest index) = .ok after ∧ Graph dests stack after ∧
      Sound constants dests goal after ∧ ¬ after.Live index ∧ Progress dests stack self after := by
  obtain ⟨hlive, hclr⟩ := h.pending index (by simp)
  have hlt := h.lt_of_live hlive
  have hok := dests.valid index hlt
  have hmove := h.operands_wellFormed index
  have hdrop (ops : List Op) : ¬ (self.drop index ops).Live index := by
    simp [Live, source_drop hlive.lt]
  have hclear : (⟨self.destination index, self.source index⟩ : MoveOperands).clear_pending
      (dests.dest index) = .ok ⟨dests.dest index, self.source index⟩ := by
    simp only [clear_pending, hmove.is_pending_eq, ok_bind]
    simp [hclr, show self.source index ≠ no_location from hlive]
  simp only [finish_move, move_at_eq hlive.lt, hclear, ok_bind]
  by_cases heq : self.source index = dests.dest index
  · obtain ⟨hgraph, hprog⟩ := h.drop []
    refine ⟨self.drop index [], ?_, hgraph, h.finish_trivial hsound heq, hdrop [], hprog⟩
    simp [heq, set_move, drop]
  set cleared := self.set_move index ⟨dests.dest index, self.source index⟩ with hcl
  have hwf : ∀ move ∈ cleared.moves, move.WellFormed := by
    intro move hmem
    rcases mem_or_eq_of_mem_set hmem with hold | rfl
    · exact h.mem_wellFormed hold
    · exact fun hnone => absurd hnone hlive
  have hreader : ∀ move ∈ cleared.moves, move.src = dests.dest index → ∃ i,
      i ∈ stack ∧ self.source i = dests.dest index ∧ move.dest = no_location := by
    intro move hmem hsrc
    obtain ⟨i, hi⟩ := mem_iff_getElem?.mp hmem
    have hsource := (source_of_getElem? hi).trans hsrc
    have hdest := destination_of_getElem? hi
    rw [hcl, source_set_move hlive.lt] at hsource
    rw [hcl, destination_set_move hlive.lt] at hdest
    by_cases hne : i = index
    · rw [if_pos hne] at hsource
      exact absurd hsource heq
    rw [if_neg hne] at hsource hdest
    have hlivei : self.Live i := by
      rw [Live, hsource]
      exact hok
    have hmemi : i ∈ stack := by
      by_contra hnot
      exact hfree i (by simp [hne, hnot]) hlivei hsource
    exact ⟨i, hmemi, hsource, hdest ▸ (h.pending i (by simp [hmemi])).2⟩
  have hfind := find_blocking_eq hok hwf fun move hmem hsrc => by
    obtain ⟨_, _, _, hdest⟩ := hreader move hmem hsrc
    exact hdest
  have hat : cleared.move_at index = .ok ⟨dests.dest index, self.source index⟩ := by
    rw [move_at_eq (by simpa [cleared] using hlive.lt), hcl, source_set_move hlive.lt, destination_set_move hlive.lt]
    simp
  rw [if_neg (by simpa using heq), hfind, ok_bind]
  by_cases hblocked : ∃ move ∈ cleared.moves, move.src = dests.dest index
  · obtain ⟨move, hmem, hsrc⟩ := hblocked
    obtain ⟨i, hi, -, -⟩ := hreader move hmem hsrc
    cases stack with
    | nil => simp at hi
    | cons parent rest =>
      obtain ⟨hgraph, hafter, hprog⟩ := h.finish_swap hsound hfree
      refine ⟨_, ?_, hgraph, hafter, ?_, hprog⟩
      · have hdropped : ∀ other ∈ (self.drop index []).moves, other.WellFormed := by
          intro other hother
          rcases mem_or_eq_of_mem_set hother with hold | rfl
          · exact h.mem_wellFormed hold
          · exact eliminated_wellFormed
        have hmap := rename_mapM_eq hlive hok hdropped
        have hset : cleared.moves.set index eliminated = (self.drop index []).moves := by
          simp [cleared, set_move, drop]
        rw [if_pos (by simpa using ⟨move, hmem, hsrc⟩)]
        simp only [add_swap_to_schedule, hat, ok_bind, hset, hmap]
        rfl
      · rw [Live, source_rename _ hlive hok, source_drop hlive.lt, if_pos rfl,
          Equiv.swap_apply_of_ne_of_ne hlive.symm hok.symm]
        simp
  · obtain ⟨hgraph, hprog⟩ := h.drop [⟨.kMove, ⟨dests.dest index, self.source index⟩⟩]
    refine ⟨_, ?_, hgraph, h.finish_move hsound ?_, hdrop _, hprog⟩
    · rw [if_neg (by simpa using hblocked)]
      simp only [add_move_to_schedule, hat, ok_bind]
      simp [cleared, set_move, drop]
    · intro i hlivei hsrc
      by_cases hne : i = index
      · exact heq (hne ▸ hsrc)
      apply hblocked
      refine ⟨⟨self.destination i, self.source i⟩, mem_iff_getElem?.mpr ⟨i, ?_⟩, hsrc⟩
      rw [hcl, set_move, List.getElem?_set_ne (Ne.symm hne)]
      exact getElem?_eq hlivei.lt

/-- `PerformMove` returns, eliminates the move it is called for and keeps the
invariant. The recursion is bounded because the stack of pending moves has no
repetitions. -/
lemma perform_move_spec (fuel : Nat) : ∀ {stack : List Nat} {self : ParallelMoveResolver}
    {index : Nat}, Graph dests stack self → Sound constants dests goal self → self.Live index →
    index ∉ stack → (self.source index).is_constant = false →
    (∀ parent ∈ stack.head?, self.source index = dests.dest parent) → dests.length ≤ stack.length + fuel →
    ∃ after, perform_move fuel self index = .ok after ∧ Graph dests stack after ∧
      Sound constants dests goal after ∧ ¬ after.Live index ∧ Progress dests stack self after := by
  induction fuel with
  | zero =>
    intro stack self index h _ hlive hidle _ _ hfuel
    have hsub : (index :: stack).Subperm (range dests.length) := by
      apply subperm_of_subset (List.nodup_cons.mpr ⟨hidle, h.stack_nodup⟩)
      intro i hi
      rw [mem_range]
      rcases List.mem_cons.mp hi with rfl | hi
      · exact h.lt_of_live hlive
      · exact h.lt_of_mem hi
    have hle := hsub.length_le
    simp only [length_cons, length_range] at hle
    omega
  | succ fuel ih =>
    intro stack self index h hsound hlive hidle hcell hpar hfuel
    have hlt := h.lt_of_live hlive
    have hok := dests.valid index hlt
    have hmove := h.operands_wellFormed index
    obtain ⟨hdest, hne⟩ := h.idle index hidle hlive
    set pushed := self.set_move index ⟨no_location, self.source index⟩ with hpushed
    have hsource (i : Nat) : pushed.source i = self.source i := by
      rw [hpushed, source_set_move hlive.lt]
      split <;> simp_all
    have hpush := h.push hlive hidle hcell hpar
    -- The loop keeps the invariant of the extended stack, and behind the loop
    -- counter no idle move reads the destination any more.
    obtain ⟨looped, hloop, hgraph, hsound', hprog, hfree⟩ := loops.foldlM_range_spec
      (perform_blocking (perform_move fuel) (dests.dest index))
      (fun k s => Graph dests (index :: stack) s ∧ Sound constants dests goal s ∧
        Progress dests (index :: stack) pushed s ∧
        ∀ i < k, i ∉ index :: stack → s.Live i → s.source i ≠ dests.dest index)
      pushed.moves.length
      (by
        intro k s hk ⟨hg, hs, hp, hf⟩
        have hks : k < s.moves.length := by rw [hg.length_eq]; exact hpush.length_eq ▸ hk
        have hwf := hg.operands_wellFormed k
        simp only [perform_blocking, move_at_eq hks, hwf.blocks_eq, hwf.is_pending_eq, ok_bind]
        by_cases hblocks : s.source k = dests.dest index ∧ s.destination k ≠ no_location
        · have hlivek : s.Live k := by rw [Live, hblocks.1]; exact hok
          have hidlek : k ∉ index :: stack := fun hmem => hblocks.2 (hg.pending k hmem).2
          obtain ⟨after, hrun, hga, hsa, hdead, hpa⟩ := ih hg hs hlivek hidlek
            (by rw [hblocks.1]; exact dests.not_constant index hlt)
            (by simpa using hblocks.1) (by simp only [length_cons]; omega)
          refine ⟨after, ?_, hga, hsa, hp.trans hpa, ?_⟩
          · rw [if_pos (by simp [hblocks.1, hblocks.2, hok])]
            exact hrun
          · intro i hi hmem hlivei hsrc
            rcases Nat.lt_succ_iff_lt_or_eq.mp hi with hi | rfl
            · exact hf i hi hmem (hpa.live i hlivei)
                (hpa.blockers index (by simp) i hmem hlivei hsrc)
            · exact hdead hlivei
        · refine ⟨s, ?_, hg, hs, hp, ?_⟩
          · rw [if_neg]
            · rfl
            · simp only [Bool.and_eq_true, decide_eq_true_eq, Bool.not_eq_true', decide_eq_false_iff_not, not_and]
              rintro ⟨hsk, hsd⟩ hnot
              apply hblocks
              exact ⟨hsd, fun hd => hnot hd hsk⟩
          · intro i hi hmem hlivei hsrc
            rcases Nat.lt_succ_iff_lt_or_eq.mp hi with hi | rfl
            · exact hf i hi hmem hlivei hsrc
            apply hblocks
            refine ⟨hsrc, ?_⟩
            rw [(hg.idle i hmem hlivei).1]
            exact dests.valid i (hg.lt_of_live hlivei))
      pushed
      ⟨hpush, by
        obtain ⟨route, hroutes, hach⟩ := hsound
        exact ⟨route, hroutes.congr hsource, hach⟩, Progress.refl _ _ _, by simp⟩
    obtain ⟨after, hfinish, hga, hsa, hdead, hpa⟩ := finish_move_spec hgraph hsound' (by
      intro i hi hlivei
      exact hfree i (by rw [hpush.length_eq, ← hgraph.length_eq]; exact hlivei.lt) hi hlivei)
    refine ⟨after, ?_, hga, hsa, hdead, ?_⟩
    · simp only [perform_move, move_at_eq hlive.lt, hmove.is_pending_eq, hmove.is_redundant_eq, mark_pending, ok_bind]
      have hsrc : (self.source index).is_invalid = false := (Location.is_invalid_eq_false_iff _).mpr hlive
      simp only [hdest, hok, hne, false_and, decide_false, or_self, Bool.not_false, check_true,
        hsrc, ok_bind, pure_eq_ok]
      rw [← hpushed, hloop, ok_bind, hfinish]
    · constructor
      · intro i hi
        have := hprog.live i (hpa.live i hi)
        rwa [Live, hsource] at this
      · intro p hp i hi hlivei hsrc
        have hne : i ≠ index := by
          rintro rfl
          exact hdead hlivei
        have hmem : i ∉ index :: stack := by simp [hne, hi]
        rw [← hsource]
        exact hprog.blockers p (by simp [hp]) i hmem (hpa.live i hlivei) (hpa.blockers p hp i hi hlivei hsrc)
      · intro i hi
        have hfst := hprog.constants i (by rwa [hsource])
        rw [hpa.constants i (by rwa [hfst, hsource]), hfst, hsource]

end ParallelMoveResolver
end dart.parallel_move_resolver
