import Mathlib.Logic.Equiv.Basic
import Mathlib.Order.Lattice

namespace dart.binary_heap
open Equiv Function

/-- The parent of a node in the array representation of a binary tree. -/
def parent (i : Nat) : Nat := (i - 1) / 2

lemma div_eq_parent (i : Nat) : (i - 1) / 2 = parent i := rfl

lemma parent_lt {i : Nat} (h : 0 < i) : parent i < i := by
  unfold parent
  omega

lemma parent_eq_iff {i j : Nat} (h : 0 < i) : parent i = j ↔ i = 2 * j + 1 ∨ i = 2 * j + 2 := by
  unfold parent
  omega

variable {κ : Type} [LinearOrder κ] {k : Nat → κ} {n hole : Nat} {k' : Nat → κ}

/-- The first `n` keys are in heap order. -/
def Ordered (k : Nat → κ) (n : Nat) : Prop := ∀ i, 0 < i → i < n → k (parent i) ≤ k i

/-- Only the key of the hole may be smaller than the one of its parent. -/
structure UpReady (k : Nat → κ) (n hole : Nat) : Prop where
  others : ∀ i, 0 < i → i < n → i ≠ hole → k (parent i) ≤ k i
  grand : 0 < hole → ∀ i, 0 < i → i < n → parent i = hole → k (parent hole) ≤ k i

/-- Only the key of the hole may be greater than those of its children. -/
structure DownReady (k : Nat → κ) (n hole : Nat) : Prop where
  others : ∀ i, 0 < i → i < n → parent i ≠ hole → k (parent i) ≤ k i
  grand : 0 < hole → ∀ i, 0 < i → i < n → parent i = hole → k (parent hole) ≤ k i

/-- The root has the smallest key. -/
lemma Ordered.root_le (h : Ordered k n) : ∀ i, i < n → k 0 ≤ k i := by
  intro i
  induction i using Nat.strongRecOn with
  | ind i ih =>
    intro hi
    by_cases h0 : i = 0
    · rw [h0]
    · have hlt := parent_lt (Nat.pos_of_ne_zero h0)
      exact (ih (parent i) hlt (by omega)).trans (h i (by omega) hi)

lemma Ordered.grand (h : Ordered k n) (hhole : 0 < hole) {i : Nat} (hpos : 0 < i) (hi : i < n)
    (hpar : parent i = hole) : k (parent hole) ≤ k i := by
  have hlt := parent_lt hpos
  calc k (parent hole) ≤ k hole := h hole hhole (by omega)
    _ ≤ k i := hpar ▸ h i hpos hi

lemma Ordered.upReady (h : Ordered k n) (hole : Nat) : UpReady k n hole :=
  ⟨fun i hpos hi _ => h i hpos hi, fun hhole _ hpos hi hpar => h.grand hhole hpos hi hpar⟩

lemma UpReady.ordered (h : UpReady k n hole) (hle : 0 < hole → k (parent hole) ≤ k hole) : Ordered k n := by
  intro i hpos hi
  by_cases heq : i = hole
  · subst heq
    exact hle hpos
  · exact h.others i hpos hi heq

/-- The hole moves up when its key is not greater than the one of its parent. -/
lemma UpReady.swap (h : UpReady k n hole) (hhole : 0 < hole) (hle : k hole ≤ k (parent hole)) :
    UpReady (k ∘ swap (parent hole) hole) n (parent hole) := by
  have hup := parent_lt hhole
  have hsame {i : Nat} (h1 : i ≠ parent hole) (h2 : i ≠ hole) : (k ∘ Equiv.swap (parent hole) hole) i = k i := by
    rw [comp_apply, swap_apply_of_ne_of_ne h1 h2]
  have hdown : (k ∘ Equiv.swap (parent hole) hole) hole = k (parent hole) := by
    rw [comp_apply, swap_apply_right]
  have htop : (k ∘ Equiv.swap (parent hole) hole) (parent hole) = k hole := by
    rw [comp_apply, swap_apply_left]
  refine ⟨?_, ?_⟩
  · intro i hpos hi hne
    have hlt' := parent_lt hpos
    by_cases hi' : i = hole
    · subst hi'
      rw [htop, hdown]
      exact hle
    rw [hsame hne hi']
    by_cases hp : parent i = hole
    · rw [hp, hdown]
      exact h.grand hhole i hpos hi hp
    by_cases hp' : parent i = parent hole
    · rw [hp', htop]
      exact hle.trans (hp' ▸ h.others i hpos hi hi')
    · rw [hsame hp' hp]
      exact h.others i hpos hi hi'
  · intro hroot i hpos hi hp
    have hlt' := parent_lt hroot
    have hgrand : k (parent (parent hole)) ≤ k (parent hole) := by
      by_cases hlast : parent hole < n
      · exact h.others (parent hole) hroot hlast (by omega)
      · have := parent_lt hpos
        omega
    rw [hsame (by omega) (by omega)]
    by_cases hi' : i = hole
    · rw [hi', hdown]
      exact hgrand
    have hlt'' := parent_lt hpos
    rw [hsame (by omega) hi']
    exact hgrand.trans (hp ▸ h.others i hpos hi hi')

lemma DownReady.ordered (h : DownReady k n hole)
    (hle : ∀ i, 0 < i → i < n → parent i = hole → k hole ≤ k i) : Ordered k n := by
  intro i hpos hi
  by_cases heq : parent i = hole
  · rw [heq]
    exact hle i hpos hi heq
  · exact h.others i hpos hi heq

/-- The hole moves down to its child with the smallest key. -/
lemma DownReady.swap (h : DownReady k n hole) {child : Nat} (hpos : 0 < child) (hchild : child < n)
    (hpar : parent child = hole) (hle : k child ≤ k hole)
    (hmin : ∀ i, 0 < i → i < n → parent i = hole → k child ≤ k i) : DownReady (k ∘ swap hole child) n child := by
  have hup := parent_lt hpos
  have hsame {i : Nat} (h1 : i ≠ hole) (h2 : i ≠ child) : (k ∘ Equiv.swap hole child) i = k i := by
    rw [comp_apply, swap_apply_of_ne_of_ne h1 h2]
  have hdown : (k ∘ Equiv.swap hole child) child = k hole := by
    rw [comp_apply, swap_apply_right]
  have htop : (k ∘ Equiv.swap hole child) hole = k child := by
    rw [comp_apply, swap_apply_left]
  refine ⟨?_, ?_⟩
  · intro i hpos' hi hne
    have hlt' := parent_lt hpos'
    by_cases hi' : i = hole
    · subst hi'
      rw [htop, hsame (by omega) (by omega)]
      exact h.grand hpos' child hpos hchild hpar
    by_cases hp : parent i = hole
    · rw [hp, htop]
      by_cases hi'' : i = child
      · rw [hi'', hdown]
        exact hle
      · rw [hsame hi' hi'']
        exact hmin i hpos' hi hp
    · have hi'' : i ≠ child := fun hc => hp (hc ▸ hpar)
      rw [hsame hp hne, hsame hi' hi'']
      exact h.others i hpos' hi hp
  · intro _ i hpos' hi hp
    have hlt' := parent_lt hpos'
    rw [hpar, htop, hsame (by omega) (by omega)]
    have hothers := h.others i hpos' hi (by omega)
    rwa [hp] at hothers

section
variable (h : Ordered k n) {key : κ}
include h

lemma Ordered.update_downReady (habove : 0 < hole → k (parent hole) ≤ key) : DownReady (update k hole key) n hole := by
  refine ⟨?_, ?_⟩
  · intro i hpos hi hp
    rw [update_of_ne hp]
    by_cases heq : i = hole
    · subst heq
      rw [update_self]
      exact habove hpos
    · rw [update_of_ne heq]
      exact h i hpos hi
  · intro hhole i hpos hi hp
    have hlt := parent_lt hpos
    have hlt' := parent_lt hhole
    simp (disch := omega) only [update_of_ne]
    exact h.grand hhole hpos hi hp

lemma Ordered.update_upReady (hlt : key ≤ k hole) : UpReady (update k hole key) n hole := by
  refine ⟨?_, ?_⟩
  · intro i hpos hi hne
    rw [update_of_ne hne]
    by_cases hp : parent i = hole
    · rw [hp, update_self]
      exact hlt.trans (hp ▸ h i hpos hi)
    · rw [update_of_ne hp]
      exact h i hpos hi
  · intro hhole i hpos hi hp
    have hlt := parent_lt hpos
    have hlt' := parent_lt hhole
    simp (disch := omega) only [update_of_ne]
    exact h.grand hhole hpos hi hp

end

lemma Ordered.mono (h : Ordered k n) {m : Nat} (hle : m ≤ n) : Ordered k m :=
  fun i hpos hi => h i hpos (Nat.lt_of_lt_of_le hi hle)

lemma Ordered.congr (h : Ordered k n) (heq : ∀ i, i < n → k' i = k i) : Ordered k' n := by
  intro i hpos hi
  rw [heq i hi, heq (parent i) (Nat.lt_trans (parent_lt hpos) hi)]
  exact h i hpos hi

lemma DownReady.congr (h : DownReady k n hole) (heq : ∀ i, i < n → k' i = k i) : DownReady k' n hole := by
  refine ⟨?_, ?_⟩
  · intro i hpos hi hne
    rw [heq i hi, heq (parent i) (Nat.lt_trans (parent_lt hpos) hi)]
    exact h.others i hpos hi hne
  · intro hhole i hpos hi hpar
    have hlt := parent_lt hpos
    have hlt' := parent_lt hhole
    rw [heq i hi, heq (parent hole) (by omega)]
    exact h.grand hhole i hpos hi hpar

/-- A new key after the last one may be too small. -/
lemma Ordered.push (h : Ordered k n) (heq : ∀ i, i < n → k' i = k i) : UpReady k' (n + 1) n := by
  refine ⟨?_, ?_⟩
  · intro i hpos hi hne
    exact h.congr heq i hpos (by omega)
  · intro _ i hpos hi hpar
    have := parent_lt hpos
    omega

end dart.binary_heap
