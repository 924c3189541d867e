import Mathlib.Data.Int.Bitwise
import Mathlib.Tactic.Linarith
import DartVM.Fault

namespace dart.int64
open Int

/-- The numbers that a signed 64-bit word represents. -/
def Fits (x : Int) : Prop := -2 ^ 63 ≤ x ∧ x < 2 ^ 63

instance (x : Int) : Decidable (Fits x) := inferInstanceAs (Decidable (_ ∧ _))

/-- Signed arithmetic, which has no defined result when the exact one does not fit. -/
def checked (x : Int) : Checked Int64 :=
  if Fits x then .ok (.ofInt x) else .error .overflow

/-- Division rounds towards zero. -/
def quotient (a b : Int64) : Checked Int64 :=
  if b.toInt = 0 then .error .overflow else checked (a.toInt.tdiv b.toInt)

/-- Arithmetic modulo `2 ^ 64`. -/
def wrap (x : Int) : Int := x.bmod (2 ^ 64)

lemma fits_toInt (x : Int64) : Fits x.toInt := ⟨x.le_toInt, x.toInt_lt⟩

variable {x : Int} {k : Nat} {a b c : Int}

@[simp] lemma Fits.toInt_ofInt (h : Fits x) : (Int64.ofInt x).toInt = x := Int64.toInt_ofInt_of_le h.1 h.2

lemma Fits.checked_eq (h : Fits x) : checked x = .ok (.ofInt x) := if_pos h

lemma Fits.wrap_eq (h : Fits x) : wrap x = x := by
  obtain ⟨hlo, hhi⟩ := h
  exact bmod_eq_of_le (by norm_num; omega) (by norm_num; omega)

lemma fits_wrap (x : Int) : Fits (wrap x) := by
  have hlo := le_bmod (x := x) (m := 2 ^ 64) (by norm_num)
  have hhi := bmod_lt (x := x) (m := 2 ^ 64) (by norm_num)
  unfold Fits wrap
  norm_num at hlo hhi ⊢
  omega

lemma toInt_ofInt_eq_wrap (x : Int) : (Int64.ofInt x).toInt = wrap x := Int64.toInt_ofInt

/-- The upper half of the unsigned words stands for the negative numbers. -/
lemma wrap_of_upper_half (hlo : 2 ^ 63 ≤ x) (hhi : x < 2 ^ 64) : wrap x = x - 2 ^ 64 := by
  unfold wrap
  rw [bmod_def]
  norm_num at hlo hhi ⊢
  omega

lemma Fits.between {x y z : Int} (hx : Fits x) (hz : Fits z) (hxy : x ≤ y) (hyz : y ≤ z) : Fits y :=
  ⟨hx.1.trans hxy, hyz.trans_lt hz.2⟩

/-- A larger divisor brings a quotient that is rounded down closer to zero or to minus one. -/
lemma ediv_le_ediv_left (ha : 0 ≤ a) (hb : 0 < b) (hbc : b ≤ c) : a / c ≤ a / b := by
  rw [Int.le_ediv_iff_mul_le hb]
  calc a / c * b ≤ a / c * c := mul_le_mul_of_nonneg_left hbc (ediv_nonneg ha (by omega))
    _ ≤ a := Int.ediv_mul_le a (by omega)

lemma ediv_le_ediv_left_of_nonpos (ha : a ≤ 0) (hb : 0 < b) (hbc : b ≤ c) : a / b ≤ a / c := by
  have hneg : a / b ≤ 0 := (Int.ediv_le_ediv hb ha).trans_eq (zero_ediv b)
  rw [Int.le_ediv_iff_mul_le (by omega)]
  calc a / b * c ≤ a / b * b := mul_le_mul_of_nonpos_left hbc hneg
    _ ≤ a := Int.ediv_mul_le a hb.ne'

lemma two_pow_mono {i j : Nat} (h : i ≤ j) : (2 : Int) ^ i ≤ 2 ^ j := pow_le_pow_right₀ (by norm_num) h

/-- The numbers whose two's complement representation has `k` bits and a sign. -/
def InBits (k : Nat) (x : Int) : Prop := -2 ^ k ≤ x ∧ x < 2 ^ k

lemma InBits.mono {k l : Nat} (h : InBits k x) (hkl : k ≤ l) : InBits l x := by
  have hpow : (2 : Int) ^ k ≤ 2 ^ l := pow_le_pow_right₀ (by norm_num) hkl
  obtain ⟨hlo, hhi⟩ := h
  exact ⟨by omega, by omega⟩

lemma InBits.between {x y z : Int} (hx : InBits k x) (hz : InBits k z) (hxy : x ≤ y) (hyz : y ≤ z) : InBits k y :=
  ⟨hx.1.trans hxy, hyz.trans_lt hz.2⟩

lemma inBits_ofNat {k n : Nat} : InBits k (ofNat n) ↔ n < 2 ^ k := by
  have hpos : (0 : Int) < 2 ^ k := by positivity
  rw [InBits, ofNat_eq_natCast]
  constructor
  · intro h
    exact_mod_cast h.2
  · intro h
    exact ⟨by omega, by exact_mod_cast h⟩

lemma inBits_negSucc {k n : Nat} : InBits k (negSucc n) ↔ n < 2 ^ k := by
  rw [InBits, negSucc_eq]
  constructor
  · intro h
    have hle : (n : Int) + 1 ≤ 2 ^ k := by omega
    exact_mod_cast hle
  · intro h
    have hle : (n : Int) + 1 ≤ 2 ^ k := by exact_mod_cast h
    omega

lemma ldiff_le (m n : Nat) : m.ldiff n ≤ m := by
  apply Nat.le_of_testBit
  intro i hi
  rw [Nat.testBit_ldiff] at hi
  exact (Bool.and_eq_true_iff.mp hi).1

variable {x y : Int}

section
variable (hx : InBits k x) (hy : InBits k y)
include hx hy

lemma inBits_land : InBits k (x.land y) := by
  cases x with
  | ofNat m =>
    have hm := inBits_ofNat.mp hx
    cases y with
    | ofNat n => exact inBits_ofNat.mpr (Nat.and_le_left.trans_lt hm)
    | negSucc n => exact inBits_ofNat.mpr ((ldiff_le m n).trans_lt hm)
  | negSucc m =>
    have hm := inBits_negSucc.mp hx
    cases y with
    | ofNat n => exact inBits_ofNat.mpr ((ldiff_le n m).trans_lt (inBits_ofNat.mp hy))
    | negSucc n => exact inBits_negSucc.mpr (Nat.or_lt_two_pow hm (inBits_negSucc.mp hy))

lemma inBits_lor : InBits k (x.lor y) := by
  cases x with
  | ofNat m =>
    have hm := inBits_ofNat.mp hx
    cases y with
    | ofNat n => exact inBits_ofNat.mpr (Nat.or_lt_two_pow hm (inBits_ofNat.mp hy))
    | negSucc n => exact inBits_negSucc.mpr ((ldiff_le n m).trans_lt (inBits_negSucc.mp hy))
  | negSucc m =>
    have hm := inBits_negSucc.mp hx
    cases y with
    | ofNat n => exact inBits_negSucc.mpr ((ldiff_le m n).trans_lt hm)
    | negSucc n => exact inBits_negSucc.mpr (Nat.and_le_left.trans_lt hm)

lemma inBits_xor : InBits k (x.xor y) := by
  cases x with
  | ofNat m =>
    have hm := inBits_ofNat.mp hx
    cases y with
    | ofNat n => exact inBits_ofNat.mpr (Nat.xor_lt_two_pow hm (inBits_ofNat.mp hy))
    | negSucc n => exact inBits_negSucc.mpr (Nat.xor_lt_two_pow hm (inBits_negSucc.mp hy))
  | negSucc m =>
    have hm := inBits_negSucc.mp hx
    cases y with
    | ofNat n => exact inBits_negSucc.mpr (Nat.xor_lt_two_pow hm (inBits_ofNat.mp hy))
    | negSucc n => exact inBits_ofNat.mpr (Nat.xor_lt_two_pow hm (inBits_negSucc.mp hy))

end

/-- A conjunction with a non-negative number is between zero and that number. -/
lemma land_le_right (hy : 0 ≤ y) : 0 ≤ x.land y ∧ x.land y ≤ y := by
  obtain ⟨n, rfl⟩ := eq_ofNat_of_zero_le hy
  cases x with
  | ofNat m => exact ⟨natCast_nonneg _, ofNat_le.mpr Nat.and_le_right⟩
  | negSucc m => exact ⟨natCast_nonneg _, ofNat_le.mpr (ldiff_le n m)⟩

lemma land_le_left (hx : 0 ≤ x) : 0 ≤ x.land y ∧ x.land y ≤ x := by
  obtain ⟨m, rfl⟩ := eq_ofNat_of_zero_le hx
  cases y with
  | ofNat n => exact ⟨natCast_nonneg _, ofNat_le.mpr Nat.and_le_left⟩
  | negSucc n => exact ⟨natCast_nonneg _, ofNat_le.mpr (ldiff_le m n)⟩

lemma lor_nonneg (hx : 0 ≤ x) (hy : 0 ≤ y) : 0 ≤ x.lor y := by
  obtain ⟨m, rfl⟩ := eq_ofNat_of_zero_le hx
  obtain ⟨n, rfl⟩ := eq_ofNat_of_zero_le hy
  exact natCast_nonneg _

lemma xor_nonneg (hx : 0 ≤ x) (hy : 0 ≤ y) : 0 ≤ x.xor y := by
  obtain ⟨m, rfl⟩ := eq_ofNat_of_zero_le hx
  obtain ⟨n, rfl⟩ := eq_ofNat_of_zero_le hy
  exact natCast_nonneg _

lemma bit_emod (b : Bool) (n : Int) (k : Nat) : Int.bit b n % 2 ^ (k + 1) = Int.bit b (n % 2 ^ k) := by
  have hpos : (0 : Int) < 2 ^ k := by positivity
  have hdecomp := emod_add_mul_ediv n (2 ^ k)
  have hbit : (0 : Int) ≤ cond b 1 0 ∧ cond b 1 0 < (2 : Int) := by cases b <;> simp
  have hsplit : 2 * n + cond b 1 0 = 2 * (n % 2 ^ k) + cond b 1 0 + 2 * 2 ^ k * (n / 2 ^ k) := by
    linarith
  rw [bit_val, bit_val, pow_succ', hsplit, add_mul_emod_self_left, emod_eq_of_lt (by omega) (by omega)]

/-- Masking keeps the lower bits. -/
lemma land_two_pow_sub_one (k : Nat) (x : Int) : x.land (2 ^ k - 1) = x % 2 ^ k := by
  induction k generalizing x with
  | zero =>
    have hmask := land_le_right (x := x) le_rfl
    rw [pow_zero, emod_one, sub_self]
    omega
  | succ k ih =>
    have hmask : (2 : Int) ^ (k + 1) - 1 = bit true (2 ^ k - 1) := by
      rw [bit_val, pow_succ']
      simp only [cond_true]
      omega
    rw [hmask, ← bit_decomp x, land_bit, Bool.and_true, ih, bit_emod]

end dart.int64
