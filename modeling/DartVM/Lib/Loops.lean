import Mathlib.Data.List.Range
import DartVM.Fault

namespace dart.loops
open List
variable {ε σ : Type}

section
variable (f : σ → Nat → Except ε σ)

/-- The counting loop `for (i = a; i < a + n; i++)`: an invariant indexed by the
loop counter that every iteration preserves holds at the exit, and the loop
returns. -/
lemma foldlM_range'_spec (I : Nat → σ → Prop) (a n : Nat)
    (hstep : ∀ i s, a ≤ i → i < a + n → I i s → ∃ s', f s i = .ok s' ∧ I (i + 1) s') (s : σ) (hinit : I a s) :
    ∃ s', (range' a n).foldlM f s = .ok s' ∧ I (a + n) s' := by
  induction n with
  | zero => exact ⟨s, rfl, hinit⟩
  | succ n ih =>
    obtain ⟨s1, hrun, hinv⟩ := ih fun i t ha hi => hstep i t ha (by omega)
    obtain ⟨s2, hlast, hinv'⟩ := hstep (a + n) s1 (by omega) (by omega) hinv
    refine ⟨s2, ?_, hinv'⟩
    rw [range'_1_concat, foldlM_append, hrun]
    simpa using hlast

/-- The counting loop `for (i = 0; i < n; i++)`. -/
lemma foldlM_range_spec (I : Nat → σ → Prop)
    (n : Nat) (hstep : ∀ i s, i < n → I i s → ∃ s', f s i = .ok s' ∧ I (i + 1) s') (s : σ) (hinit : I 0 s) :
    ∃ s', (range n).foldlM f s = .ok s' ∧ I n s' := by
  rw [range_eq_range']
  simpa using foldlM_range'_spec f I 0 n (fun i s _ hi => hstep i s (by omega)) s hinit

/-- The loop `for (i = n - 1; i >= 0; i--)`. -/
lemma foldlM_reverse_range_spec (I : Nat → σ → Prop) (n : Nat)
    (hstep : ∀ i s, i < n → I (i + 1) s → ∃ s', f s i = .ok s' ∧ I i s') (s : σ) (hinit : I n s) :
    ∃ s', (range n).reverse.foldlM f s = .ok s' ∧ I 0 s' := by
  induction n generalizing s with
  | zero => exact ⟨s, rfl, hinit⟩
  | succ n ih =>
    obtain ⟨s1, hfst, hinv⟩ := hstep n s (by omega) hinit
    obtain ⟨s2, hrun, hinv'⟩ := ih (fun i t hi => hstep i t (by omega)) s1 hinv
    refine ⟨s2, ?_, hinv'⟩
    rw [range_succ, reverse_append, reverse_singleton, singleton_append, foldlM_cons, hfst]
    exact hrun

end

/-- The loop over the elements of a list, with an invariant indexed by the elements
already visited. -/
lemma foldlM_prefix_spec {ε σ α : Type} (f : σ → α → Except ε σ) (I : List α → σ → Prop) (l : List α)
    (hstep : ∀ visited a rest s, l = visited ++ a :: rest → I visited s → ∃ s', f s a = .ok s' ∧ I (visited ++ [a]) s')
    (s : σ) (hinit : I [] s) : ∃ s', l.foldlM f s = .ok s' ∧ I l s' := by
  suffices h : ∀ rest visited s, l = visited ++ rest → I visited s → ∃ s', rest.foldlM f s = .ok s' ∧ I l s' from
    h l [] s rfl hinit
  intro rest
  induction rest with
  | nil =>
    intro visited s hl hinv
    rw [append_nil] at hl
    exact ⟨s, rfl, hl ▸ hinv⟩
  | cons a rest ih =>
    intro visited s hl hinv
    obtain ⟨s', hs', hinv'⟩ := hstep visited a rest s hl hinv
    obtain ⟨t, ht, hinvt⟩ := ih (visited ++ [a]) s' (by rw [hl, append_assoc]; rfl) hinv'
    exact ⟨t, by rw [foldlM_cons, hs', ok_bind, ht], hinvt⟩

end dart.loops
