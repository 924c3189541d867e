import Mathlib.Data.Nat.Digits.Lemmas

namespace dart.numeral
open Nat List

/-- The positional value of digits, the most significant one first. -/
def value (b : Nat) (digits : List Nat) : Nat := digits.foldl (fun v d => v * b + d) 0

/-- The canonical digits of a number, the most significant one first: no leading zero, except for
zero itself. -/
def canonical (b n : Nat) : List Nat := if n = 0 then [0] else (Nat.digits b n).reverse

/-- The `k` lowest digits of a number, the least significant one first. -/
def lowDigits (b : Nat) : Nat → Nat → List Nat
  | 0, _ => []
  | k + 1, n => n % b :: lowDigits b k (n / b)

variable {b n k : Nat}

lemma value_eq_ofDigits (digits : List Nat) : value b digits = ofDigits b digits.reverse := by
  induction digits using reverseRecOn with
  | nil => rfl
  | append_singleton digits d ih =>
    rw [value, foldl_append, foldl_cons, foldl_nil, ← value, ih, reverse_append,
      reverse_singleton, singleton_append, ofDigits_cons]
    rw [mul_comm, add_comm]

lemma value_append (l m : List Nat) : value b (l ++ m) = value b l * b ^ m.length + value b m := by
  rw [value_eq_ofDigits, reverse_append, ofDigits_append, length_reverse, ← value_eq_ofDigits,
    ← value_eq_ofDigits, mul_comm, add_comm]

lemma value_append_singleton (l : List Nat) (d : Nat) : value b (l ++ [d]) = value b l * b + d := by
  rw [value, foldl_append]
  rfl

lemma value_lt (hb : 1 < b) {digits : List Nat} (h : ∀ d ∈ digits, d < b) : value b digits < b ^ digits.length := by
  rw [value_eq_ofDigits, ← length_reverse]
  exact ofDigits_lt_base_pow_length hb fun d hd => h d (mem_reverse.mp hd)

lemma value_canonical : value b (canonical b n) = n := by
  rw [canonical]
  split
  · rename_i h
    rw [h, value, foldl_cons, foldl_nil, zero_mul]
  · rw [value_eq_ofDigits, reverse_reverse, ofDigits_digits]

lemma canonical_lt (hb : 1 < b) {d : Nat} (hd : d ∈ canonical b n) : d < b := by
  rw [canonical] at hd
  split at hd
  · rw [mem_singleton.mp hd]
    exact zero_lt_of_lt hb
  · exact digits_lt_base hb (mem_reverse.mp hd)

lemma canonical_ne_nil : canonical b n ≠ [] := by
  rw [canonical]
  split
  · exact cons_ne_nil _ _
  · rename_i h
    rw [Ne, reverse_eq_nil_iff]
    exact digits_ne_nil_iff_ne_zero.mpr h

/-- Only the numeral of zero starts with a zero. -/
lemma canonical_head_ne_zero (h : n ≠ 0) : (canonical b n).head canonical_ne_nil ≠ 0 := by
  have hlast := getLast_digit_ne_zero b h
  simp only [canonical, if_neg h, head_reverse]
  exact hlast

lemma lowDigits_eq_map : lowDigits b k n = (range k).map fun j => n / b ^ j % b := by
  induction k generalizing n with
  | zero => rfl
  | succ k ih =>
    rw [lowDigits, ih, range_succ_eq_map, map_cons, map_map, pow_zero, Nat.div_one]
    refine congrArg _ (map_congr_left fun j _ => ?_)
    rw [Function.comp_apply, succ_eq_add_one, pow_succ', Nat.div_div_eq_div_mul]

lemma lowDigits_add {l : Nat} : lowDigits b (k + l) n = lowDigits b k n ++ lowDigits b l (n / b ^ k) := by
  induction k generalizing n with
  | zero => rw [Nat.zero_add, lowDigits, pow_zero, Nat.div_one, nil_append]
  | succ k ih =>
    rw [Nat.add_right_comm, lowDigits, lowDigits, ih, cons_append, pow_succ', Nat.div_div_eq_div_mul]

lemma lowDigits_mod : lowDigits b k (n % b ^ k) = lowDigits b k n := by
  induction k generalizing n with
  | zero => rfl
  | succ k ih =>
    have hdiv : n % b ^ (k + 1) / b = n / b % b ^ k := by rw [pow_succ', mod_mul_right_div_self]
    have hmod : n % b ^ (k + 1) % b = n % b := mod_mod_of_dvd n (dvd_pow_self b k.succ_ne_zero)
    rw [lowDigits, lowDigits, hdiv, hmod, ih]

/-- The low digits of a number follow the digits of the rest. -/
lemma digits_eq_lowDigits_append (hb : 1 < b) (h : 0 < n / b ^ k) :
    digits b n = lowDigits b k n ++ digits b (n / b ^ k) := by
  induction k generalizing n with
  | zero => rw [lowDigits, pow_zero, Nat.div_one, nil_append]
  | succ k ih =>
    have hpos : 0 < n := pos_of_ne_zero fun h0 => by
      rw [h0, Nat.zero_div] at h
      exact lt_irrefl 0 h
    have hdiv : n / b ^ (k + 1) = n / b / b ^ k := by rw [pow_succ', Nat.div_div_eq_div_mul]
    rw [hdiv] at h
    rw [digits_def' hb hpos, lowDigits, cons_append, hdiv, ih h]

lemma lowDigits_zero : lowDigits b k 0 = replicate k 0 := by
  induction k with
  | zero => rfl
  | succ k ih => rw [lowDigits, zero_mod, Nat.zero_div, ih, replicate_succ]

variable (hb : 1 < b)
include hb

/-- A number that is too short is filled up with zeros. -/
lemma lowDigits_eq_digits_append (h : n < b ^ k) :
    lowDigits b k n = digits b n ++ replicate (k - (digits b n).length) 0 := by
  induction k generalizing n with
  | zero =>
    rw [pow_zero, lt_one_iff] at h
    rw [h, digits_zero]
    rfl
  | succ k ih =>
    by_cases hn : n = 0
    · rw [hn, lowDigits_zero, digits_zero]
      rfl
    · have hlt : n / b < b ^ k := Nat.div_lt_of_lt_mul (by rwa [← pow_succ'])
      rw [digits_def' hb (Nat.pos_of_ne_zero hn), lowDigits, ih hlt, length_cons, Nat.add_sub_add_right, cons_append]

/-- The numeral of a number, filled up with zeros. -/
lemma reverse_lowDigits (hk : 0 < k) (h : n < b ^ k) :
    (lowDigits b k n).reverse = replicate (k - (canonical b n).length) 0 ++ canonical b n := by
  by_cases hn : n = 0
  · have hsplit : replicate k 0 = replicate (k - 1) 0 ++ [0] := by
      rw [← replicate_one, replicate_append_replicate, Nat.sub_add_cancel hk]
    rw [hn, lowDigits_zero, reverse_replicate, hsplit]
    rfl
  · rw [lowDigits_eq_digits_append hb h, reverse_append, reverse_replicate, canonical, if_neg hn, length_reverse]

/-- A long numeral is the one of the leading part, followed by the low digits. -/
lemma canonical_eq_append (h : 0 < n / b ^ k) :
    canonical b n = canonical b (n / b ^ k) ++ (lowDigits b k n).reverse := by
  have hn : n ≠ 0 := fun h0 => by
    rw [h0, Nat.zero_div] at h
    exact lt_irrefl 0 h
  rw [canonical, if_neg hn, canonical, if_neg h.ne', digits_eq_lowDigits_append hb h, reverse_append]

/-- A long numeral consists of those of two parts, with zeros between them. -/
lemma canonical_eq_canonical_append (hk : 0 < k) (h : 0 < n / b ^ k) : canonical b n = canonical b (n / b ^ k) ++
      (replicate (k - (canonical b (n % b ^ k)).length) 0 ++ canonical b (n % b ^ k)) := by
  have hlt : n % b ^ k < b ^ k := mod_lt _ (pow_pos (zero_lt_of_lt hb) k)
  rw [canonical_eq_append hb h, ← lowDigits_mod, reverse_lowDigits hb hk hlt]

end dart.numeral
