import DartVM.IntegerSelection.Selected
import DartVM.IntegerSelection.Semantics

namespace dart.integer_selection
open range_analysis int64 Instr Option Except List Function Machine Int Definitions
variable {δ ω σ π : Type}

namespace FlowGraph
variable [DecidableEq δ] {graph graph' : FlowGraph δ} {selected : List δ} {defn : δ}
  {values values' : δ → Option (Value ω)} {n : Int}

/-- The replaced definitions whose values are truncated. -/
def Truncated (graph : FlowGraph δ) (selected : List δ) (defn : δ) : Prop :=
  defn ∈ selected ∧ (graph.instr defn).is_box_int64 = false ∧ graph.is_uint32_narrowing_definition defn ≠ .ok true

/-- How the values of the definitions are related before and after the pass. -/
structure Agree (graph : FlowGraph δ) (selected : List δ) (values values' : δ → Option (Value ω)) : Prop where
  truncated : ∀ defn ∈ selected, values' defn = (values defn).map Value.truncate
  same : ∀ defn, ¬graph.Truncated selected defn → values' defn = values defn

section
variable (h : graph.Selected selected) {user : δ}
include h

end

lemma Agree.read_uint32 (h : graph.Agree selected values values') (defn : δ) :
    read_uint32 values' defn = read_uint32 values defn := by
  unfold integer_selection.read_uint32 read_integer
  by_cases hmem : defn ∈ selected
  · rw [h.truncated defn hmem]
    rcases values defn with _ | n | o
    · rfl
    · simp [Value.truncate, Value.as_integer]
    · rfl
  · rw [h.same defn fun htrunc => hmem htrunc.1]

lemma Agree.update (h : graph.Agree selected values values') {x x' : Option (Value ω)}
    (htrunc : defn ∈ selected → x' = x.map Value.truncate) (hsame : ¬graph.Truncated selected defn → x' = x) :
    graph.Agree selected (update values defn x) (update values' defn x') where
  truncated d hd := by
    by_cases heq : d = defn
    · subst heq
      rw [update_self, update_self, htrunc hd]
    · rw [update_of_ne heq, update_of_ne heq]
      exact h.truncated d hd
  same d hd := by
    by_cases heq : d = defn
    · subst heq
      rw [update_self, update_self, hsame hd]
    · rw [update_of_ne heq, update_of_ne heq]
      exact h.same d hd

lemma Agree.write_all (writes : List (δ × Value ω)) :
    ∀ {values values' : δ → Option (Value ω)}, graph.Agree selected values values' →
      (∀ write ∈ writes, write.1 ∉ selected) →
      graph.Agree selected (write_all values writes) (write_all values' writes) := by
  induction writes with
  | nil => exact fun h _ => h
  | cons write writes ih =>
    intro values values' h hnew
    have hwr := hnew write (.head _)
    exact ih (h.update (fun hmem => absurd hmem hwr) fun _ => rfl) fun w hw => hnew w (.tail _ hw)

section
variable (h : graph.Selected selected)
include h

variable {state state' : State δ ω σ π}

end

end FlowGraph
end dart.integer_selection
