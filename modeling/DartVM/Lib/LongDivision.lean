import Mathlib.Tactic.Ring

namespace dart.long_division
open Nat

/-- The leading digits of the dividend and of the divisor do not give too small a quotient. -/
lemma quotient_mul_leading_le {a y u v : Nat} (hu : 0 < u) (hv : 0 < v) : a / (y * u) * (y / v) ≤ a / (v * u) := by
  rw [le_div_iff_mul_le (mul_pos hv hu)]
  calc a / (y * u) * (y / v) * (v * u) = a / (y * u) * (y / v * v * u) := by ring
    _ ≤ a / (y * u) * (y * u) := mul_le_mul_left _ (mul_le_mul_right u (div_mul_le_self y v))
    _ ≤ a := div_mul_le_self a _

/-- Neither do they without their last bits. -/
lemma quotient_le_halves {c d q : Nat} (hd : 2 ≤ d) (h : q * d ≤ c) : q ≤ c / 2 / (d / 2) := by
  have hhalf : 0 < d / 2 := by omega
  rw [le_div_iff_mul_le hhalf, le_div_iff_mul_le two_pos]
  calc q * (d / 2) * 2 = q * (d / 2 * 2) := mul_assoc ..
    _ ≤ q * d := mul_le_mul_left q (div_mul_le_self d 2)
    _ ≤ c := h

variable {b y u a e : Nat} (hu : 0 < u) (hy : 0 < y) (hle : y ≤ b)
include hu hy hle

/-- Instead of subtracting `e` times the divisor `y`, its complement with respect to `b` is added:
what is above the remainder's places tells whether `e` is too large. -/
lemma complement_lt (he : a / (y * u) ≤ e) : a + e * (b - y) * u < (e + 1) * (b * u) := by
  have hlt : a < (e + 1) * (y * u) := by
    have hpos : 0 < y * u := mul_pos hy hu
    rw [← div_lt_iff_lt_mul hpos]
    omega
  have hsplit : e * (b - y) * u + e * (y * u) = e * (b * u) := by
    rw [Nat.mul_assoc, ← Nat.mul_add, ← Nat.add_mul, Nat.sub_add_cancel hle]
  have hyb : y * u ≤ b * u := mul_le_mul_right u hle
  rw [add_mul, one_mul] at hlt ⊢
  omega

lemma complement_word_le (he : a / (y * u) ≤ e) : (a + e * (b - y) * u) / (b * u) ≤ e := by
  have hpos : 0 < b * u := mul_pos (hy.trans_le hle) hu
  exact le_of_lt_succ ((div_lt_iff_lt_mul hpos).mpr (complement_lt hu hy hle he))

lemma complement_word_lt_iff : (a + e * (b - y) * u) / (b * u) < e ↔ a / (y * u) < e := by
  have hpos : 0 < b * u := mul_pos (hy.trans_le hle) hu
  have hsplit : e * (b - y) * u + e * (y * u) = e * (b * u) := by
    rw [Nat.mul_assoc, ← Nat.mul_add, ← Nat.add_mul, Nat.sub_add_cancel hle]
  rw [div_lt_iff_lt_mul hpos, div_lt_iff_lt_mul (mul_pos hy hu)]
  omega

end dart.long_division
