import DartVM.Lib.Loops
import DartVM.RangeAnalysis.Valuation
import DartVM.IntegerSelection.Selector

namespace dart.integer_selection
open range_analysis List Definitions Function Instr
variable {δ : Type} [DecidableEq δ]

namespace FlowGraph

/-- Every instruction occurs once, the ranges have bounds, boxes have unboxed inputs and
shifts are shifts. -/
structure WellFormed (graph : FlowGraph δ) : Prop where
  nodup : graph.instructions.Nodup
  bounded : graph.Bounded
  unboxed : ∀ defn value, graph.instr defn = .box_int64 value → (graph.instr value).is_box_int64 = false
  shift : ∀ defn speculative op_kind left right, graph.instr defn = .shift_int64 speculative op_kind left right →
    op_kind = .kSHL ∨ op_kind = .kSHR ∨ op_kind = .kUSHR

/-- What holds of the selected definitions at any time. A box is selected after its input,
and every other definition but the narrowing ones is selected after its uses. Hence none
of the latter is the input of a box. -/
structure Selected (graph : FlowGraph δ) (selected : List δ) : Prop where
  potential : ∀ defn ∈ selected, defn ∈ graph.potential_uint32_defs
  box_input : ∀ defn ∈ selected, ∀ value, graph.instr defn = .box_int64 value → value ∈ selected
  narrowing : ∀ defn ∈ selected, (graph.instr defn).is_box_int64 = true ∨
    graph.is_uint32_narrowing_definition defn = .ok true ∨
    graph.needs_high_bits (graph.instr defn) = .ok false ∧
      (∀ use ∈ graph.input_use_list defn, graph.is_narrowing_use selected use = true ∧
        (graph.instr use.instruction).is_box_int64 = false) ∧
      ∀ use ∈ graph.env_use_list defn, graph.is_narrowing_use selected use = true

variable {graph : FlowGraph δ} {selected : List δ} {defn : δ} {use : Use δ}

lemma mem_uses {operands : δ → List δ} {in_environment : Bool} : use ∈ graph.uses operands in_environment defn ↔
      use.instruction ∈ graph.instructions ∧ (operands use.instruction)[use.index]? = some defn ∧
        use.in_environment = in_environment := by
  obtain ⟨instruction, index, env⟩ := use
  simp only [uses, mem_flatMap, mem_filterMap, Prod.exists, List.mem_zipIdx_iff_getElem?,
    Option.ite_none_right_eq_some, Option.some.injEq, Use.mk.injEq]
  constructor
  · rintro ⟨_, hmem, _, _, hget, rfl, rfl, rfl, rfl⟩
    exact ⟨hmem, hget, rfl⟩
  · rintro ⟨hmem, hget, rfl⟩
    exact ⟨instruction, hmem, defn, index, hget, rfl, rfl, rfl, rfl⟩

lemma is_narrowing_use_cons (h : graph.is_narrowing_use selected use = true) (defn : δ) :
    graph.is_narrowing_use (defn :: selected) use = true := by
  simp only [is_narrowing_use, Bool.and_eq_true, decide_eq_true_eq] at h ⊢
  exact ⟨⟨h.1.1, .tail _ h.1.2⟩, h.2⟩

/-- When `CanBecomeUint32` accepts a definition. -/
lemma can_become_uint32_eq_true (h : graph.can_become_uint32 selected defn = .ok true) :
    (∃ value, graph.instr defn = .box_int64 value ∧ value ∈ selected) ∨
      (graph.instr defn).is_box_int64 = false ∧ graph.needs_high_bits (graph.instr defn) = .ok false ∧
        (∀ use ∈ graph.input_use_list defn, graph.is_narrowing_use selected use = true) ∧
        ∀ use ∈ graph.env_use_list defn, graph.is_narrowing_use selected use = true := by
  unfold can_become_uint32 at h
  split at h
  · rename_i value hins
    exact .inl ⟨value, hins, of_decide_eq_true (Except.ok.inj h)⟩
  · rename_i hbox
    obtain ⟨high, hhi, h⟩ := bind_eq_ok_iff.mp h
    cases high with
    | true => simp at h
    | false =>
      right
      refine ⟨?_, hhi, ?_⟩
      · cases hins : graph.instr defn <;> first | rfl | exact (hbox _ hins).elim
      · simp only [Bool.false_eq_true, if_false, pure_eq_ok] at h
        split at h
        · simp at h
        · simp only [Except.ok.injEq, Bool.and_eq_true, all_uses_are_uint32_narrowing, all_eq_true] at h
          exact h

lemma Selected.cons (h : graph.Selected selected) (hpot : defn ∈ graph.potential_uint32_defs) (hnew : defn ∉ selected)
    (hcan : graph.is_uint32_narrowing_definition defn = .ok true ∨ graph.can_become_uint32 selected defn = .ok true) :
    graph.Selected (defn :: selected) where
  potential := by
    rintro d (_ | ⟨_, hd⟩)
    · exact hpot
    · exact h.potential d hd
  box_input := by
    rintro d (_ | ⟨_, hd⟩) value hins
    · rcases hcan with hnarrow | hcan
      · simp [is_uint32_narrowing_definition, hins] at hnarrow
      rcases can_become_uint32_eq_true hcan with ⟨value', hins', hmem⟩ | ⟨hbox, -⟩
      · rw [hins, box_int64.injEq] at hins'
        exact .tail _ (hins' ▸ hmem)
      · simp [hins, is_box_int64] at hbox
    · exact .tail _ (h.box_input d hd value hins)
  narrowing := by
    rintro d (_ | ⟨_, hd⟩)
    · rcases hcan with hnarrow | hcan
      · exact .inr (.inl hnarrow)
      rcases can_become_uint32_eq_true hcan with ⟨value, hins, -⟩ | ⟨-, hhi, hinputs, henv⟩
      · exact .inl (by rw [hins]; rfl)
      refine .inr (.inr ⟨hhi, ?_, fun use huse => is_narrowing_use_cons (henv use huse) _⟩)
      intro use huse
      refine ⟨is_narrowing_use_cons (hinputs use huse) _, ?_⟩
      -- a box that uses the definition would have been selected after it
      by_contra hbox
      have hmem : use.instruction ∈ selected := by
        have hinput := hinputs use huse
        simp only [is_narrowing_use, Bool.and_eq_true, decide_eq_true_eq] at hinput
        exact hinput.1.2
      obtain ⟨-, hget, -⟩ := mem_uses.mp huse
      cases hins : graph.instr use.instruction with
      | box_int64 value =>
        rw [hins] at hget
        obtain rfl : value = defn := by
          cases hidx : use.index with
          | zero => simpa [inputs, hidx] using hget
          | succ n => simp [inputs, hidx] at hget
        exact hnew (h.box_input _ hmem _ hins)
      | _ => simp [hins, is_box_int64] at hbox
    · rcases h.narrowing d hd with hbox | hnarrow | ⟨hhi, hinputs, henv⟩
      · exact .inl hbox
      · exact .inr (.inl hnarrow)
      · exact .inr (.inr ⟨hhi, fun use huse => ⟨is_narrowing_use_cons (hinputs use huse).1 _, (hinputs use huse).2⟩,
          fun use huse => is_narrowing_use_cons (henv use huse) _⟩)

section
variable (h : graph.Bounded)
include h

section
omit [DecidableEq δ]

end

end

/-- How many definitions may still be selected. -/
def remaining (graph : FlowGraph δ) (selected : List δ) : Nat :=
  graph.potential_uint32_defs.countP fun defn => decide (defn ∉ selected)

end FlowGraph
end dart.integer_selection
