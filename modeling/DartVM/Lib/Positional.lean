import Mathlib.Algebra.BigOperators.Ring.Finset
import Mathlib.Tactic.Linarith
import Mathlib.Tactic.Ring

namespace dart.positional
open Finset Function Nat

/-- The number whose digits in base `b` are the first `n` of a sequence, the least
significant one first. -/
def value (b : Nat) (d : Nat → Nat) (n : Nat) : Nat := ∑ k ∈ range n, d k * b ^ k

variable {b : Nat} {d e : Nat → Nat} {m n i : Nat}

@[simp] lemma value_zero : value b d 0 = 0 := rfl

lemma value_succ : value b d (n + 1) = value b d n + d n * b ^ n := sum_range_succ ..

@[simp] lemma value_one : value b d 1 = d 0 := by
  rw [value_succ, value_zero, pow_zero, mul_one, zero_add]

lemma value_congr (h : ∀ k, k < n → d k = e k) : value b d n = value b e n :=
  sum_congr rfl fun k hk => by rw [h k (mem_range.mp hk)]

/-- The digits from place `m` on count `b ^ m` times as much. -/
lemma value_add : value b d (m + n) = value b d m + b ^ m * value b (fun k => d (m + k)) n := by
  rw [value, sum_range_add, value, value, mul_sum]
  congr 1
  exact sum_congr rfl fun k _ => by rw [pow_add]; ring

lemma value_of_le (h : m ≤ n) : value b d n = value b d m + b ^ m * value b (fun k => d (m + k)) (n - m) := by
  rw [← value_add, add_sub_of_le h]

lemma value_succ' : value b d (n + 1) = d 0 + b * value b (fun k => d (k + 1)) n := by
  rw [add_comm n, value_add, value_one, pow_one]
  simp [add_comm 1]

lemma value_lt (h : ∀ k, d k < b) : value b d n < b ^ n := by
  induction n with
  | zero => simp
  | succ n ih =>
    have htop : (d n + 1) * b ^ n ≤ b * b ^ n := mul_le_mul_right _ (h n)
    rw [value_succ, pow_succ']
    linarith

lemma value_mono (h : m ≤ n) : value b d m ≤ value b d n := by
  rw [value_of_le h]
  exact Nat.le_add_right ..

lemma value_eq_zero (h : ∀ k, k < n → d k = 0) : value b d n = 0 :=
  sum_eq_zero fun k hk => by rw [h k (mem_range.mp hk), zero_mul]

/-- Digits that are zero do not count. -/
lemma value_eq_of_zero (hmn : m ≤ n) (h : ∀ k, m ≤ k → k < n → d k = 0) : value b d n = value b d m := by
  rw [value_of_le hmn, value_eq_zero fun k hk => h (m + k) (Nat.le_add_right ..) (by omega), mul_zero, add_zero]

lemma value_update_of_le (v : Nat) (h : n ≤ i) : value b (update d i v) n = value b d n :=
  value_congr fun k hk => update_of_ne (by omega) ..

/-- Replacing one digit trades what it contributes. -/
lemma value_update (v : Nat) (h : i < n) : value b (update d i v) n + d i * b ^ i = value b d n + v * b ^ i := by
  have hmem : i ∈ range n := mem_range.mpr h
  have hrest : ∑ k ∈ (range n).erase i, update d i v k * b ^ k = ∑ k ∈ (range n).erase i, d k * b ^ k :=
    sum_congr rfl fun k hk => by rw [update_of_ne (ne_of_mem_erase hk)]
  rw [value, value, ← add_sum_erase _ _ hmem, ← add_sum_erase (range n) (fun k => d k * b ^ k) hmem, hrest, update_self]
  ring

lemma value_mod_pow (h : ∀ k, d k < b) (hmn : m ≤ n) : value b d n % b ^ m = value b d m := by
  rw [value_of_le hmn, add_mul_mod_self_left, mod_eq_of_lt (value_lt h)]

lemma value_div_pow (h : ∀ k, d k < b) (hmn : m ≤ n) : value b d n / b ^ m = value b (fun k => d (m + k)) (n - m) := by
  have hpos : 0 < b ^ m := Nat.pow_pos (Nat.zero_lt_of_lt (h 0))
  rw [value_of_le hmn, add_mul_div_left _ _ hpos, div_eq_of_lt (value_lt h), zero_add]

/-- A digit is read off the number by division. -/
lemma digit_eq (h : ∀ k, d k < b) (hi : i < n) : value b d n / b ^ i % b = d i := by
  have hmod := value_mod_pow (fun k => h (i + k)) (show 1 ≤ n - i by omega)
  rwa [← value_div_pow h hi.le, pow_one, value_one, add_zero] at hmod

/-- The first place where two numbers differ, from the top, decides their order. -/
lemma value_lt_of_digit_lt (hd : ∀ k, d k < b) (hlt : d n < e n) : value b d (n + 1) < value b e (n + 1) := by
  have htop : (d n + 1) * b ^ n ≤ e n * b ^ n := mul_le_mul_right _ hlt
  have hlo := value_lt hd (n := n)
  rw [value_succ, value_succ]
  linarith

/-- A number has a digit that is not zero at its topmost place when it has as many places as it needs. -/
lemma pow_le_value (hn : 0 < n) (htop : d (n - 1) ≠ 0) : b ^ (n - 1) ≤ value b d n := by
  obtain ⟨m, rfl⟩ := exists_eq_succ_of_ne_zero hn.ne'
  have hpos : 1 * b ^ m ≤ d m * b ^ m := mul_le_mul_right _ (pos_of_ne_zero htop)
  rw [Nat.succ_eq_add_one, Nat.add_sub_cancel, value_succ]
  linarith

end dart.positional
