import Mathlib.Data.Nat.Basic

namespace dart.parent_tree

/-- A tree that is given by its parent pointers; `none` stands for the root, and
every node knows how far it is from it. -/
structure ParentTree (N : Type) where
  parent : N → Option N
  depth : N → Nat
  depth_eq : ∀ node, depth node = (parent node).elim 0 depth + 1

namespace ParentTree
variable {N : Type} (tree : ParentTree N)

def height (node : Option N) : Nat := node.elim 0 tree.depth

@[simp] lemma height_none : tree.height none = 0 := rfl

@[simp] lemma height_some (node : N) : tree.height (some node) = tree.height (tree.parent node) + 1 :=
  tree.depth_eq node

/-- Induction from the root towards the leaves. -/
lemma induction_up {P : Option N → Prop} (hroot : P none) (hnode : ∀ node, P (tree.parent node) → P (some node))
    (node : Option N) : P node := by
  generalize hheight : tree.height node = height
  induction height generalizing node with
  | zero =>
    cases node with
    | none => exact hroot
    | some node => simp at hheight
  | succ height ih =>
    cases node with
    | none => exact hroot
    | some node =>
      rw [height_some] at hheight
      exact hnode node (ih _ (by omega))

/-- The node `above` lies on the path from `node` to the root. -/
inductive AtOrAbove (above : Option N) : Option N → Prop
  | refl : AtOrAbove above above
  | step (node : N) : AtOrAbove above (tree.parent node) → AtOrAbove above (some node)

variable {tree} {above node : Option N} {K : Type} {label : N → K} {key : K}

section
variable (h : tree.AtOrAbove above node)
include h

lemma AtOrAbove.trans {below : Option N} (hnode : tree.AtOrAbove node below) : tree.AtOrAbove above below := by
  induction hnode with
  | refl => exact h
  | step below _ ih => exact .step below ih

lemma AtOrAbove.height_le : tree.height above ≤ tree.height node := by
  induction h with
  | refl => exact le_rfl
  | step node _ ih =>
    rw [height_some]
    omega

lemma AtOrAbove.eq_of_height (hheight : tree.height node ≤ tree.height above) : above = node := by
  cases h with
  | refl => rfl
  | step node h =>
    have hle := h.height_le
    rw [height_some] at hheight
    omega

end

lemma AtOrAbove.parent_of_ne {node : N} (h : tree.AtOrAbove above (some node)) (hne : above ≠ some node) :
    tree.AtOrAbove above (tree.parent node) := by
  cases h with
  | refl => exact absurd rfl hne
  | step _ h => exact h

lemma atOrAbove_parent (node : N) : tree.AtOrAbove (tree.parent node) (some node) := .step node .refl

lemma not_atOrAbove_parent (node : N) : ¬tree.AtOrAbove (some node) (tree.parent node) := by
  intro h
  have hle := h.height_le
  rw [height_some] at hle
  omega

variable (tree label) in
/-- The label occurs on the path from `node` up to, but not including, `above`. -/
def OccursBelow (above node : Option N) (key : K) : Prop :=
  ∃ other, tree.AtOrAbove (some other) node ∧ ¬tree.AtOrAbove (some other) above ∧ label other = key

lemma not_occursBelow_self : ¬tree.OccursBelow label node node key := fun ⟨_, h, hnot, _⟩ => hnot h

/-- One more step towards the root adds the label of the node that is left behind. -/
lemma occursBelow_parent_iff {now : N} (h : tree.AtOrAbove (some now) node) :
    tree.OccursBelow label (tree.parent now) node key ↔
      label now = key ∨ tree.OccursBelow label (some now) node key := by
  constructor
  · rintro ⟨other, habove, hnot, hlabel⟩
    by_cases heq : other = now
    · exact .inl (heq ▸ hlabel)
    exact .inr ⟨other, habove, fun hnow => hnot (hnow.parent_of_ne fun h => heq (Option.some.inj h)), hlabel⟩
  · rintro (hlabel | ⟨other, habove, hnot, hlabel⟩)
    · exact ⟨now, h, not_atOrAbove_parent now, hlabel⟩
    · exact ⟨other, habove, fun hpar => hnot (.step now hpar), hlabel⟩

variable [DecidableEq K]

variable (tree) in
/-- The walk towards the root that stops at the first node with the label `key`. -/
def lookup (label : N → K) (key : K) : Option N → Option N
  | none => none
  | some node => if label node = key then some node else lookup label key (tree.parent node)
termination_by node => tree.height node

@[simp] lemma lookup_none : tree.lookup label key none = none := by rw [lookup]

lemma lookup_some (node : N) : tree.lookup label key (some node) =
    if label node = key then some node else tree.lookup label key (tree.parent node) := by rw [lookup]

lemma lookup_of_label {node : N} (h : label node = key) : tree.lookup label key (some node) = some node := by
  rw [lookup_some, if_pos h]

lemma lookup_of_label_ne {node : N} (h : label node ≠ key) :
    tree.lookup label key (some node) = tree.lookup label key (tree.parent node) := by
  rw [lookup_some, if_neg h]

variable (tree label key) in
/-- The node nearest to `node`, at or above it, that has the label `key`, if any does. -/
def IsNearest (node : Option N) : Option N → Prop
  | none => ∀ other, tree.AtOrAbove (some other) node → label other ≠ key
  | some nearest => tree.AtOrAbove (some nearest) node ∧ label nearest = key ∧
    ∀ other, tree.AtOrAbove (some other) node → label other = key → tree.AtOrAbove (some other) (some nearest)

lemma lookup_isNearest (node : Option N) : tree.IsNearest label key node (tree.lookup label key node) := by
  induction node using tree.induction_up with
  | hroot =>
    rw [lookup_none]
    intro other h
    cases h
  | hnode node ih =>
    by_cases hlabel : label node = key
    · rw [lookup_of_label hlabel]
      exact ⟨.refl, hlabel, fun other h _ => h⟩
    rw [lookup_of_label_ne hlabel]
    have hpar : ∀ other, tree.AtOrAbove (some other) (some node) → label other = key →
        tree.AtOrAbove (some other) (tree.parent node) := by
      intro other h hother
      refine h.parent_of_ne fun heq => hlabel ?_
      rw [← Option.some.inj heq]
      exact hother
    cases hlook : tree.lookup label key (tree.parent node) with
    | none =>
      rw [hlook] at ih
      exact fun other h hother => ih other (hpar other h hother) hother
    | some nearest =>
      rw [hlook] at ih
      obtain ⟨habove, hnearest, hrest⟩ := ih
      exact ⟨.step node habove, hnearest, fun other h hother => hrest other (hpar other h hother) hother⟩

variable (tree) in
/-- The nearest node, possibly the root, that is at or above both. -/
def IsNearestCommon (left right : Option N) (common : Option N) : Prop :=
  tree.AtOrAbove common left ∧ tree.AtOrAbove common right ∧
    ∀ other, tree.AtOrAbove other left → tree.AtOrAbove other right → tree.AtOrAbove other common

end ParentTree
end dart.parent_tree
