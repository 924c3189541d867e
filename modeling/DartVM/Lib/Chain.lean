import Mathlib.Data.List.Basic

namespace dart.chain
open List

/-- The nodes of a null-terminated linked list. -/
def Chain (next : Nat → Nat) : Nat → List Nat → Prop
  | head, [] => head = 0
  | head, node :: rest => head = node ∧ node ≠ 0 ∧ Chain next (next node) rest

variable {next next' : Nat → Nat} {head node : Nat} {nodes before after : List Nat}

section
variable (h : Chain next head nodes)
include h

lemma Chain.congr (hsame : ∀ node ∈ nodes, next' node = next node) : Chain next' head nodes := by
  induction nodes generalizing head with
  | nil => exact h
  | cons node rest ih =>
    obtain ⟨hhead, hne, hrest⟩ := h
    refine ⟨hhead, hne, ?_⟩
    rw [hsame node (.head _)]
    exact ih hrest fun other hother => hsame other (.tail _ hother)

lemma Chain.push (hne : node ≠ 0) (hnew : node ∉ nodes) (hnode : next' node = head)
    (hsame : ∀ other, other ≠ node → next' other = next other) : Chain next' node (node :: nodes) := by
  refine ⟨rfl, hne, ?_⟩
  rw [hnode]
  exact h.congr fun other hother => hsame other fun heq => hnew (heq ▸ hother)

lemma Chain.head_eq_zero_iff : head = 0 ↔ nodes = [] := by
  cases nodes with
  | nil => exact iff_of_true h rfl
  | cons node rest => exact iff_of_false (h.1 ▸ h.2.1) (cons_ne_nil _ _)

lemma Chain.unique {nodes' : List Nat} (h' : Chain next head nodes') : nodes = nodes' := by
  induction nodes generalizing head nodes' with
  | nil => exact (h'.head_eq_zero_iff.mp h).symm
  | cons node rest ih =>
    obtain ⟨rfl, hne, hrest⟩ := h
    cases nodes' with
    | nil => exact absurd h' hne
    | cons node' rest' =>
      obtain ⟨rfl, -, hrest'⟩ := h'
      rw [ih hrest hrest']

end

/-- The predecessor of a node takes over its successor. -/
lemma Chain.unlink {previous : Nat} (h : Chain next head (before ++ previous :: node :: after))
    (hnodup : (before ++ previous :: node :: after).Nodup) (hprev : next' previous = next node)
    (hsame : ∀ other, other ≠ previous → next' other = next other) :
    Chain next' head (before ++ previous :: after) := by
  induction before generalizing head with
  | nil =>
    obtain ⟨hhead, hne, -, -, hafter⟩ := h
    refine ⟨hhead, hne, ?_⟩
    rw [hprev]
    rw [nil_append, nodup_cons] at hnodup
    exact hafter.congr fun other hother =>
      hsame other fun heq => hnodup.1 (heq ▸ .tail _ hother)
  | cons first before ih =>
    obtain ⟨hhead, hne, hrest⟩ := h
    rw [cons_append, nodup_cons] at hnodup
    have hfst : first ≠ previous := fun heq =>
      hnodup.1 (heq ▸ mem_append_right _ (.head _))
    refine ⟨hhead, hne, ?_⟩
    rw [hsame first hfst]
    exact ih hrest hnodup.2

end dart.chain
