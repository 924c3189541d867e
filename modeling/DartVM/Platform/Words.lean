import DartVM.Lib.Int64

namespace dart.utils
open int64 Nat

def will_add_overflow (a b : Int64) : Bool :=
  (b.toInt > 0 && a.toInt > 2 ^ 63 - 1 - b.toInt) || (b.toInt < 0 && a.toInt < -2 ^ 63 - b.toInt)

def will_sub_overflow (a b : Int64) : Bool :=
  (b.toInt > 0 && a.toInt < -2 ^ 63 + b.toInt) || (b.toInt < 0 && a.toInt > 2 ^ 63 - 1 + b.toInt)

def abs_with_saturation (x : Int64) : Checked Int64 :=
  if x.toInt < 0 then
    if x = Int64.minValue then .ok Int64.maxValue else checked (-x.toInt)
  else
    .ok x

/-- Whether `value` fits in `n` bits, the sign included. -/
def is_int (n : Nat) (value : Int64) : Checked Bool := do
  check (n ≥ 1)
  if n ≥ 64 then
    return true
  let limit : Int := 2 ^ (n - 1)
  return -limit ≤ value.toInt && value.toInt < limit

/-- One of the tests of `HighestBit`: the upper part of `x`, if it is not zero. -/
def highest_bit_step (state : Nat × Nat) (shift : Nat) : Nat × Nat :=
  let t := state.1 >>> shift
  if t ≠ 0 then (t, state.2 + shift) else state

/-- The position of the highest bit that is set. -/
def highest_bit (v : Int64) : Checked Nat := do
  let x ← if v.toInt > 0 then .ok v else checked (-v.toInt)
  let (x, r) := [32, 16, 8, 4, 2].foldl highest_bit_step (x.toInt.toNat, 0)
  return if x > 1 then r + 1 else r

variable (value : Int64) {state : Nat × Nat} {a b : Int64}

/-- The number of bits without the sign. Bits are flipped if negative. -/
def bit_length : Checked Nat := do
  let value := value ^^^ (value >>> 63)
  if value = 0 then
    return 0
  return (← highest_bit value) + 1

lemma will_add_overflow_eq_false_iff : will_add_overflow a b = false ↔ Fits (a.toInt + b.toInt) := by
  obtain ⟨ha, ha'⟩ := fits_toInt a
  simp only [will_add_overflow, Fits, Bool.or_eq_false_iff, Bool.and_eq_false_iff, decide_eq_false_iff_not]
  omega

lemma will_sub_overflow_eq_false_iff : will_sub_overflow a b = false ↔ Fits (a.toInt - b.toInt) := by
  obtain ⟨ha, ha'⟩ := fits_toInt a
  simp only [will_sub_overflow, Fits, Bool.or_eq_false_iff, Bool.and_eq_false_iff, decide_eq_false_iff_not]
  omega

lemma abs_with_saturation_spec (x : Int64) : ∃ r, abs_with_saturation x = .ok r ∧ 0 ≤ r.toInt ∧ |x.toInt| - 1 ≤
    r.toInt ∧ r.toInt ≤ |x.toInt| ∧ (x.toInt ≠ -2 ^ 63 → r.toInt = |x.toInt|) := by
  obtain ⟨hlo, hhi⟩ := fits_toInt x
  rw [abs_with_saturation]
  split
  · rename_i hneg
    rw [abs_of_neg hneg]
    split
    · rename_i hmin
      subst hmin
      refine ⟨_, rfl, ?_⟩
      rw [Int64.toInt_maxValue, Int64.toInt_minValue]
      norm_num
    · rename_i hmin
      have hne : x.toInt ≠ -2 ^ 63 := fun h => hmin (Int64.toInt.inj (h.trans Int64.toInt_minValue.symm))
      have hfits : Fits (-x.toInt) := ⟨by omega, by omega⟩
      refine ⟨_, hfits.checked_eq, ?_⟩
      rw [hfits.toInt_ofInt]
      exact ⟨by omega, by omega, by omega, fun _ => rfl⟩
  · rename_i hneg
    rw [abs_of_nonneg (by omega)]
    exact ⟨x, rfl, by omega, by omega, by omega, fun _ => rfl⟩

/-- The search for the highest bit of `v` has come to the upper bits `x`, all but `r` of
them, and `x` has at most `k` bits. -/
structure Narrowed (v k : Nat) (state : Nat × Nat) : Prop where
  pos : 0 < state.1
  lt : state.1 < 2 ^ k
  le : 2 ^ state.2 * state.1 ≤ v
  upper : v < 2 ^ state.2 * (state.1 + 1)

lemma Narrowed.step {v shift : Nat} (h : Narrowed v (2 * shift) state) :
    Narrowed v shift (highest_bit_step state shift) := by
  obtain ⟨x, r⟩ := state
  obtain ⟨hpos, hlt, hle, hupper⟩ := h
  have hdiv : 2 ^ shift * (x / 2 ^ shift) ≤ x := mul_div_le x _
  have hnext : x < 2 ^ shift * (x / 2 ^ shift + 1) := Nat.lt_mul_div_succ x (Nat.two_pow_pos shift)
  rw [highest_bit_step, shiftRight_eq_div_pow]
  split
  · rename_i ht
    refine ⟨pos_of_ne_zero ht, ?_, ?_, ?_⟩
    · apply Nat.div_lt_of_lt_mul
      rwa [← Nat.pow_add, ← Nat.two_mul]
    · rw [pow_add, mul_assoc]
      exact (mul_le_mul_left _ hdiv).trans hle
    · rw [pow_add, mul_assoc]
      exact hupper.trans_le (mul_le_mul_left _ hnext)
  · rename_i ht
    rw [ne_eq, not_not] at ht
    rw [ht, zero_add, mul_one] at hnext
    exact ⟨hpos, hnext, hle, hupper⟩

lemma Narrowed.last {v : Nat} (h : Narrowed v 2 state) : 2 ^ (if state.1 > 1 then state.2 + 1 else state.2) ≤ v ∧
      v < 2 ^ ((if state.1 > 1 then state.2 + 1 else state.2) + 1) := by
  obtain ⟨x, r⟩ := state
  obtain ⟨hpos, hlt, hle, hupper⟩ := h
  split
  · rename_i htwo
    constructor
    · calc 2 ^ (r + 1) = 2 ^ r * 2 := pow_succ ..
        _ ≤ 2 ^ r * x := mul_le_mul_left _ htwo
        _ ≤ v := hle
    · calc v < 2 ^ r * (x + 1) := hupper
        _ ≤ 2 ^ r * 2 ^ 2 := mul_le_mul_left _ hlt
        _ = 2 ^ (r + 1 + 1) := (pow_add ..).symm
  · rename_i hone
    obtain rfl : x = 1 := by omega
    exact ⟨by simpa using hle, by rwa [pow_succ]⟩

lemma highest_bit_spec {v : Int64} (hpos : 0 < v.toInt) :
    ∃ r, highest_bit v = .ok r ∧ 2 ^ r ≤ v.toInt.toNat ∧ v.toInt.toNat < 2 ^ (r + 1) := by
  obtain ⟨-, hhi⟩ := fits_toInt v
  have hsmall : v.toInt.toNat < 2 ^ (2 * 32) := by omega
  have hstart : Narrowed v.toInt.toNat (2 * 32) (v.toInt.toNat, 0) :=
    ⟨by dsimp only; omega, hsmall, by rw [pow_zero, one_mul], by rw [pow_zero, one_mul]; omega⟩
  have h32 : Narrowed v.toInt.toNat (2 * 16) _ := hstart.step
  have h16 : Narrowed v.toInt.toNat (2 * 8) _ := h32.step
  have h8 : Narrowed v.toInt.toNat (2 * 4) _ := h16.step
  have h4 : Narrowed v.toInt.toNat (2 * 2) _ := h8.step
  refine ⟨_, ?_, h4.step.last⟩
  rw [highest_bit, if_pos hpos]
  rfl

/-- Flipping the bits of a negative number. -/
lemma toInt_xor_sign :
    (value ^^^ (value >>> 63)).toInt = if value.toInt < 0 then -value.toInt - 1 else value.toInt := by
  obtain ⟨hlo, hhi⟩ := fits_toInt value
  have hsign : (value >>> 63).toInt = value.toInt / 2 ^ 63 := by
    have hcnt : (BitVec.smod (63 : Int64).toBitVec 64).toNat = 63 := by decide
    rw [← Int64.toInt_toBitVec, Int64.toBitVec_shiftRight, BitVec.toInt_sshiftRight', hcnt,
      Int.shiftRight_eq_div_pow, Int64.toInt_toBitVec]
    rfl
  split
  · rename_i hneg
    have hones : value >>> 63 = -1 := by
      apply Int64.toInt.inj
      rw [hsign, show (-1 : Int64).toInt = -1 from rfl]
      omega
    have hfits : Fits (-value.toInt - 1) := ⟨by omega, by omega⟩
    rw [hones, Int64.xor_neg_one, Int64.toInt_not]
    exact hfits.wrap_eq
  · have h0 : value >>> 63 = 0 := by
      apply Int64.toInt.inj
      rw [hsign, Int64.toInt_zero]
      omega
    rw [h0, Int64.xor_zero]

lemma bit_length_spec : ∃ k, bit_length value = .ok k ∧ k ≤ 63 ∧ InBits k value.toInt := by
  obtain ⟨hlo, hhi⟩ := fits_toInt value
  have hflip := toInt_xor_sign value
  rw [bit_length]
  split
  · rename_i h0
    refine ⟨0, rfl, zero_le, ?_⟩
    rw [h0, Int64.toInt_zero] at hflip
    rw [InBits]
    split at hflip <;> omega
  · rename_i hne
    have hne' : (value ^^^ (value >>> 63)).toInt ≠ 0 := fun h => hne (Int64.toInt.inj (h.trans Int64.toInt_zero.symm))
    have hpos : 0 < (value ^^^ (value >>> 63)).toInt := by
      split at hflip <;> omega
    obtain ⟨r, hr, hle, hlt⟩ := highest_bit_spec hpos
    refine ⟨r + 1, by rw [hr]; rfl, ?_, ?_⟩
    · have hsmall : 2 ^ r < 2 ^ 63 := by
        omega
      exact Nat.succ_le_of_lt ((Nat.pow_lt_pow_iff_right (by norm_num)).mp hsmall)
    · have hupper : (value ^^^ (value >>> 63)).toInt < 2 ^ (r + 1) := by
        have hcast : (((value ^^^ (value >>> 63)).toInt.toNat : Nat) : Int) < ((2 ^ (r + 1) : Nat) : Int) :=
          Int.ofNat_lt.mpr hlt
        push_cast at hcast
        omega
      rw [InBits]
      split at hflip <;> omega

end dart.utils
