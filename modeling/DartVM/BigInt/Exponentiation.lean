import DartVM.BigInt.Powering

namespace dart.bigint
open MontgomeryReduction Primitives
variable {p : Primitives}

/-- The number of digits of the modulus is rounded up by the primitives that take two digits, and
then the comparison of the numbers of digits does not see that a result is not below the modulus. -/
lemma MontgomeryReduction.Sound.lt_limit_iff {z : MontgomeryReduction} (hz : z.Sound p) :
    z.modulus.magnitude < z.limit ↔ p = .intrinsics ∧ z.modulus.used % 2 = 1 := by
  have hused := hz.used_pos
  have hlo : digit_base ^ (z.modulus.used - 1) ≤ z.modulus.magnitude :=
    positional.pow_le_value (by omega) (hz.valid.top_digit hused.ne')
  have hhi : z.modulus.magnitude < digit_base ^ z.modulus.used := z.modulus.digits.value_lt _
  have hsame (h : z.norm_modulus_used = z.modulus.used) : ¬z.modulus.magnitude < z.limit := by
    rw [limit, h, max_eq_left hlo]
    exact lt_irrefl _
  have hnorm := hz.norm_used
  cases p with
  | pure_dart =>
    rw [width, steps, Nat.one_mul] at hnorm
    exact iff_of_false (hsame hnorm) (fun h => noConfusion h.1)
  | intrinsics =>
    rw [width, steps] at hnorm
    by_cases hodd : z.modulus.used % 2 = 1
    · refine iff_of_true ?_ ⟨rfl, hodd⟩
      rw [limit, show z.norm_modulus_used - 1 = z.modulus.used by omega]
      exact lt_max_of_lt_right hhi
    · exact iff_of_false (hsame (by omega)) (fun h => hodd h.2)

namespace BigIntImpl
variable {x exponent modulus : BigIntImpl}

lemma Valid.nonnegative (hx : x.Valid) (h : 0 ≤ x.value) : x.is_negative = false := by
  by_contra hneg
  rw [Bool.not_eq_false] at hneg
  rw [value, hneg, signed, if_pos rfl] at h
  have h0 := hx.magnitude_eq_zero_iff.mp (by omega)
  exact Bool.false_ne_true ((hx.zero_sign h0).symm.trans hneg)

lemma value_eq_magnitude (h : x.is_negative = false) : x.value = x.magnitude := by
  rw [value, h]
  rfl

lemma is_even_spec (hx : x.Valid) : x.is_even = .ok (decide (x.magnitude % 2 = 0)) := by
  by_cases hused : x.used = 0
  · rw [is_even, if_pos hused, hx.magnitude_eq_zero_iff.mpr hused]
    rfl
  have hle := hx.used_le
  rw [is_even, if_neg hused, Uint32List.read_eq (by omega), ok_bind, pure_eq_ok, Nat.and_one_is_mod,
    digit_zero_mod_two (Nat.pos_of_ne_zero hused)]

lemma bit_length_spec (hx : x.Valid) (hsign : x.is_negative = false) (hused : x.used ≠ 0) :
    ∃ l, x.bit_length = .ok (l + 1) ∧ 2 ^ l ≤ x.magnitude ∧ x.magnitude < 2 ^ (l + 1) := by
  have hle := hx.used_le
  have htop := hx.top_digit hused
  refine ⟨_, ?_, hx.log2_spec hused rfl⟩
  rw [bit_length, if_neg hused, Uint32List.read_eq (by omega), ok_bind, decide_eq_true htop, check_true, hsign,
    bigint.bit_length, if_neg htop]
  rfl

/-- The result is the modulus: it is divisible by it, but not zero, before the last reduction. -/
def LeavesModulus (p : Primitives) (x exponent modulus : BigIntImpl) : Prop :=
  p = .intrinsics ∧ modulus.value % 2 = 1 ∧ modulus.used % 2 = 1 ∧ x.value ≠ 0 ∧ |x.value| < modulus.value ∧
    128 ≤ exponent.value ∧ modulus.value ∣ x.value ^ exponent.value.toNat

lemma choose_reduction_spec (hx : x.Valid) (hmod : modulus.Valid) (hpos : 0 < modulus.value) (n : Nat) :
    ∃ z bitwise, choose_reduction p x modulus n = .ok (z, bitwise) ∧ z.Sound p ∧ z.Accepts x ∧ ∀ v, z.outcome v =
      if (modulus.value % 2 = 1 ∧ |x.value| < modulus.value ∧ 8 ≤ n) ∧ (p = .intrinsics ∧ modulus.used % 2 = 1) ∧
        v ≠ 0 ∧ modulus.value ∣ v then modulus.value else v % modulus.value := by
  have hsign := hmod.nonnegative hpos.le
  have hval := value_eq_magnitude hsign
  have hused : 0 < modulus.used := Nat.pos_of_ne_zero fun h0 => by
    rw [hmod.value_eq_zero h0] at hpos
    exact lt_irrefl _ hpos
  obtain ⟨a, ha, havalid, havalue⟩ := abs_spec hx
  obtain ⟨c, hc, hcsign⟩ := compare_to_spec havalid hmod
  have hcmp := nonneg_iff_of_sign_eq hcsign
  rw [havalue, hval, sub_nonneg, Nat.cast_le] at hcmp
  rw [Int.abs_eq_natAbs, natAbs_value, hval]
  by_cases hclassic : (modulus.magnitude % 2 = 0 ∨ modulus.magnitude ≤ x.magnitude) ∨ n < 8
  · obtain ⟨z, hz, hsound, hzmod⟩ := ClassicReduction.create_spec hmod hsign hused
    refine ⟨.classic z, true, ?_, hsound, trivial, fun v => ?_⟩
    · simp only [choose_reduction, is_even_spec hmod, ha, hc, ok_bind, hcmp, hz, pure_eq_ok]
      rw [if_pos (by simpa using hclassic)]
    · rw [if_neg (by omega), ← hzmod]
      rfl
  obtain ⟨z, hz, hsound, hzmod⟩ := create_spec (p := p) hmod hsign (by omega)
  have hlimit := hsound.lt_limit_iff
  have hacc : x.magnitude < z.modulus.magnitude := by
    rw [hzmod]
    omega
  refine ⟨.montgomery z, n < 64, ?_, hsound, hacc, fun v => ?_⟩
  · simp only [choose_reduction, is_even_spec hmod, ha, hc, ok_bind, hcmp, hz, pure_eq_ok]
    rw [if_neg (by simpa using hclassic)]
  · rw [hzmod] at hlimit
    have hchosen : (modulus.magnitude : Int) % 2 = 1 ∧ (x.magnitude : Int) < modulus.magnitude ∧ 8 ≤ n := by omega
    simp only [Reduction.outcome, outcome, hzmod, hlimit]
    exact if_congr (and_iff_right hchosen).symm rfl rfl

/-- The power is reduced by the modulus, with one exception. -/
lemma power_spec (hx : x.Valid) (hexp : exponent.Valid) (hnn : 0 ≤ exponent.value) (hmod : modulus.Valid)
    (hpos : 0 < modulus.value) (h0 : exponent.value ≠ 0) : ∃ r, power p x exponent modulus = .ok r ∧ r.Valid ∧
      (LeavesModulus p x exponent modulus → r.value = modulus.value) ∧
      (¬LeavesModulus p x exponent modulus → r.value = x.value ^ exponent.value.toNat % modulus.value) := by
  have hsign := hexp.nonnegative hnn
  have hval := value_eq_magnitude hsign
  have hused : exponent.used ≠ 0 := mt hexp.value_eq_zero h0
  obtain ⟨l, hlen, hlo, hhi⟩ := bit_length_spec hexp hsign hused
  obtain ⟨z, bitwise, hchoose, hz, hacc, houtcome⟩ := choose_reduction_spec hx hmod hpos (l + 1)
  have hpower : ∃ r, (if bitwise then bitwise_power p z x exponent (l + 1) else window_power p z x exponent (l + 1)) =
      .ok r ∧ r.Valid ∧ r.value = z.outcome (x.value ^ exponent.magnitude) := by
    cases bitwise with
    | true => exact bitwise_power_spec hz hx hacc hexp hlo hhi
    | false => exact window_power_spec hz hx hacc hexp hused (l + 1)
  obtain ⟨r, hr, hok, hres⟩ := hpower
  have hnat : exponent.value.toNat = exponent.magnitude := by rw [hval, Int.toNat_natCast]
  have hlong : 8 ≤ l + 1 ↔ 128 ≤ exponent.value := by
    have hup := fun h : 7 ≤ l => (Nat.pow_le_pow_right (by decide) h).trans hlo
    have hdown := fun h : l + 1 ≤ 7 => hhi.trans_le (Nat.pow_le_pow_right (by decide) h)
    omega
  have hne : x.value ^ exponent.magnitude ≠ 0 ↔ x.value ≠ 0 := pow_ne_zero_iff (by omega)
  have hleaves : LeavesModulus p x exponent modulus ↔
      (modulus.value % 2 = 1 ∧ |x.value| < modulus.value ∧ 8 ≤ l + 1) ∧ (p = .intrinsics ∧ modulus.used % 2 = 1) ∧
        x.value ^ exponent.magnitude ≠ 0 ∧ modulus.value ∣ x.value ^ exponent.magnitude := by
    rw [LeavesModulus, hnat, hlong, hne]
    tauto
  rw [houtcome] at hres
  refine ⟨r, ?_, hok, fun h => ?_, fun h => ?_⟩
  · rw [power, if_neg (mt is_zero_iff.mp hused), hlen, ok_bind, if_neg (Nat.not_succ_le_zero l), hchoose, ok_bind]
    exact hr
  · rw [hres, if_pos (hleaves.mp h)]
  · rw [hres, if_neg (mt hleaves.mpr h), hnat]

/-- The power modulo the modulus, except that the result is one for the exponent zero and the modulus
one, and is the modulus when the last reduction does not subtract it. -/
theorem mod_pow_eq_iff (p : Primitives) (x exponent modulus : BigIntImpl) (hx : x.Valid) (hexponent : exponent.Valid)
    (hmodulus : modulus.Valid) (hnonneg : 0 ≤ exponent.value) (hpos : 0 < modulus.value) :
    ∃ r, mod_pow p x exponent modulus = .ok r ∧ r.Valid ∧ (r.value = x.value ^ exponent.value.toNat % modulus.value ↔
        ¬(exponent.value = 0 ∧ modulus.value = 1) ∧ ¬LeavesModulus p x exponent modulus) := by
  obtain ⟨c, hc, hsign⟩ := compare_to_spec hmodulus valid_zero
  rw [value_zero, Int.sub_zero] at hsign
  have hcpos : ¬c ≤ 0 := not_le.mpr (Int.sign_eq_one_iff_pos.mp (hsign.trans (Int.sign_eq_one_of_pos hpos)))
  have hrun : mod_pow p x exponent modulus = (power p x exponent modulus).mapError .fault := by
    simp only [mod_pow, hexponent.nonnegative hnonneg, hc, Except.mapError, ok_bind, if_neg hcpos]
    rfl
  by_cases h0 : exponent.value = 0
  · have hused : exponent.used = 0 := hexponent.magnitude_eq_zero_iff.mp (by rw [← natAbs_value, h0]; rfl)
    have hpower : power p x exponent modulus = .ok one := by rw [power, if_pos (is_zero_iff.mpr hused), pure_eq_ok]
    refine ⟨one, by rw [hrun, hpower]; rfl, valid_one, ?_⟩
    have hshort : ¬LeavesModulus p x exponent modulus := fun ⟨_, _, _, _, _, h, _⟩ => by omega
    rw [show one.value = 1 from rfl, h0, Int.toNat_zero, pow_zero, and_iff_left hshort, and_iff_right rfl]
    refine ⟨fun h hone => ?_, fun hone => (Int.emod_eq_of_lt (by decide) (by omega)).symm⟩
    rw [hone] at h
    exact absurd h (by decide)
  obtain ⟨r, hr, hok, hleaves, hred⟩ := power_spec hx hexponent hnonneg hmodulus hpos h0
  refine ⟨r, by rw [hrun, hr]; rfl, hok, ?_⟩
  rw [and_iff_right (fun h => h0 h.1)]
  refine ⟨fun h hmod => ?_, hred⟩
  have := Int.emod_lt_of_pos (x.value ^ exponent.value.toNat) hpos
  rw [← h, hleaves hmod] at this
  exact lt_irrefl _ this

/-- `5^3` modulo `7`. -/
theorem mod_pow_eq_iff_five :
    ∃ r, mod_pow .pure_dart ⟨false, [5, 0], 1⟩ ⟨false, [3, 0], 1⟩ ⟨false, [7, 0], 1⟩ = .ok r ∧ r.value = 5 ^ 3 % 7 := by
  obtain ⟨r, hr, -, hiff⟩ := mod_pow_eq_iff .pure_dart ⟨false, [5, 0], 1⟩ ⟨false, [3, 0], 1⟩ ⟨false, [7, 0], 1⟩
    ⟨⟨by decide, by decide, by decide⟩, by decide, by decide⟩
    ⟨⟨by decide, by decide, by decide⟩, by decide, by decide⟩ ⟨⟨by decide, by decide, by decide⟩, by decide, by decide⟩
    (by decide) (by decide)
  exact ⟨r, hr, hiff.mpr ⟨by decide, fun h => noConfusion h.1⟩⟩

/-- `3^200` modulo `9`, and `0^0` modulo `1`. -/
theorem mod_pow_not_reduced :
    (mod_pow .intrinsics ⟨false, [3, 0], 1⟩ ⟨false, [200, 0], 1⟩ ⟨false, [9, 0], 1⟩).toOption.map value = some 9 ∧
      (3 : Int) ^ 200 % 9 = 0 ∧ (mod_pow .pure_dart zero zero one).toOption.map value = some 1 ∧ (0 : Int) ^ 0 % 1 = 0 := by
  refine ⟨by decide +kernel, by norm_num, by decide +kernel, rfl⟩

end BigIntImpl
end dart.bigint
