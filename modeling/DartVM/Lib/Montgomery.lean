import Mathlib.Data.Int.ModEq
import Mathlib.Tactic.Linarith
import Mathlib.Tactic.LinearCombination
import Mathlib.Tactic.Ring

namespace dart.montgomery
open Nat

section

/-- One step of Newton's iteration doubles the number of bits for which `y` is the inverse of `x`. -/
lemma newton_modEq {n x y y' : Int} (h : x * y ≡ 1 [ZMOD n]) (hstep : y' ≡ y * (2 - x * y) [ZMOD n * n]) :
    x * y' ≡ 1 [ZMOD n * n] := by
  obtain ⟨k, hk⟩ := h.symm.dvd
  have hsquare : x * (y * (2 - x * y)) ≡ 1 [ZMOD n * n] := by
    refine (Int.modEq_iff_dvd.mpr ⟨k * k, ?_⟩)
    linear_combination (x * y - 1 + n * k) * hk
  exact (hstep.mul_left x).trans hsquare

/-- Words of 64 bits are integers modulo every smaller power of two. -/
def residue (a : BitVec 64) : Int := a.toNat

variable {a b : BitVec 64} {k : Nat}

lemma modEq_of_two_pow {x y : Int} (h : x ≡ y [ZMOD 2 ^ 64]) (hk : k ≤ 64) : x ≡ y [ZMOD 2 ^ k] :=
  h.of_dvd (pow_dvd_pow 2 hk)

variable (hk : k ≤ 64)
include hk

lemma residue_mul : residue (a * b) ≡ residue a * residue b [ZMOD 2 ^ k] := by
  refine modEq_of_two_pow ?_ hk
  rw [residue, BitVec.toNat_mul]
  push_cast
  exact Int.mod_modEq _ _

lemma residue_sub : residue (a - b) ≡ residue a - residue b [ZMOD 2 ^ k] := by
  refine modEq_of_two_pow ?_ hk
  have hb : b.toNat ≤ 2 ^ 64 := b.isLt.le
  rw [residue, BitVec.toNat_sub, Int.natCast_mod, Int.natCast_add, Int.natCast_sub hb]
  refine (Int.mod_modEq _ _).trans ?_
  refine Int.modEq_iff_dvd.mpr ⟨-1, ?_⟩
  rw [residue, residue]
  ring

lemma residue_neg : residue (-a) ≡ -residue a [ZMOD 2 ^ k] := by
  have h := residue_sub (a := 0#64) (b := a) hk
  rwa [BitVec.zero_sub, show residue 0#64 = 0 from rfl, zero_sub] at h

/-- The lower bits are the residue. -/
lemma residue_and_mask : residue (a &&& BitVec.ofNat 64 (2 ^ k - 1)) = residue a % 2 ^ k := by
  have hlt : 2 ^ k - 1 < 2 ^ 64 := by
    have hle := Nat.pow_le_pow_right (show 0 < 2 by decide) hk
    omega
  rw [residue, BitVec.toNat_and, BitVec.toNat_ofNat, mod_eq_of_lt hlt, and_two_pow_sub_one_eq_mod, residue]
  rfl

lemma residue_and_mask_modEq : residue (a &&& BitVec.ofNat 64 (2 ^ k - 1)) ≡ residue a [ZMOD 2 ^ k] := by
  rw [residue_and_mask hk]
  exact Int.mod_modEq _ _

end

/-- A multiple of the modulus has been added to `X` such that the sum is divisible by `R`, which the
modulus is coprime to: `t` is the quotient. -/
structure Reduces (R m X k t : Nat) : Prop where
  sum_eq : R * t = X + k * m
  multiple_lt : k < R

variable {R m X k t : Nat}

section
variable (h : Reduces R m X k t)
include h

lemma Reduces.modEq : R * t ≡ X [MOD m] := by
  rw [h.sum_eq]
  exact Nat.ModEq.symm (modEq_iff_dvd' (Nat.le_add_right ..) |>.mpr (by simp))

lemma Reduces.lt_two_mul (hX : X < R * m) : t < 2 * m := by
  have hk := mul_le_mul_right m h.multiple_lt.le
  have hsum := h.sum_eq
  refine Nat.lt_of_mul_lt_mul_left (a := R) ?_
  linarith

/-- A number that is reduced itself needs one subtraction only if the result is the modulus. -/
lemma Reduces.le (hX : X < R) : t ≤ m := by
  have hk := Nat.mul_le_mul_right m (le_pred_of_lt h.multiple_lt)
  have hsum := h.sum_eq
  refine le_of_lt_succ (Nat.lt_of_mul_lt_mul_left (a := R) ?_)
  have hR : (R - 1) * m + m = R * m := by
    rw [← succ_mul, succ_eq_add_one, Nat.sub_add_cancel (by omega)]
  rw [pred_eq_sub_one] at hk
  rw [mul_succ]
  omega

lemma Reduces.pos (hX : 0 < X) : 0 < t := by
  have hsum := h.sum_eq
  refine pos_of_ne_zero fun h0 => ?_
  rw [h0] at hsum
  omega

end

lemma Reduces.eq_zero (h : Reduces R m 0 k t) (hcoprime : Nat.Coprime R m) : t = 0 := by
  have hsum := h.sum_eq
  rw [zero_add] at hsum
  have hdvd : R ∣ k := hcoprime.dvd_of_dvd_mul_right ⟨t, hsum.symm⟩
  have hk := eq_zero_of_dvd_of_lt hdvd h.multiple_lt
  rw [hk, zero_mul] at hsum
  have hR : 0 < R := zero_lt_of_lt h.multiple_lt
  exact (Nat.mul_eq_zero.mp hsum).resolve_left hR.ne'

/-- One step, for a digit in base `w` at the place that counts `P`: the digit becomes zero. -/
lemma dvd_step {w P x rho : Nat} (hrho : rho * m + 1 ≡ 0 [MOD w]) (hP : P ∣ x) :
    P * w ∣ x + rho * (x / P % w) % w * m * P := by
  obtain ⟨q, rfl⟩ := hP
  rcases Nat.eq_zero_or_pos P with rfl | hpos
  · simp
  rw [Nat.mul_div_cancel_left _ hpos, show P * q + rho * (q % w) % w * m * P = P * (q + rho * (q % w) % w * m) by ring]
  refine mul_dvd_mul_left P (modEq_zero_iff_dvd.mp ?_)
  calc q + rho * (q % w) % w * m ≡ q + rho * q * m [MOD w] :=
        ((mod_modEq _ _).trans ((mod_modEq _ _).mul_left rho)).mul_right m |>.add_left q
    _ = q * (rho * m + 1) := by ring
    _ ≡ q * 0 [MOD w] := ModEq.mul_left q hrho
    _ = 0 := mul_zero q

end dart.montgomery
