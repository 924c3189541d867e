import DartVM.BigInt.Montgomery

namespace dart.bigint
open montgomery positional Int Uint32List BigIntImpl

namespace MontgomeryReduction

/-- The factor between a number and its Montgomery form. -/
abbrev radix (z : MontgomeryReduction) : Nat := digit_base ^ z.norm_modulus_used

variable {p : Primitives} {z : MontgomeryReduction} {digits : Uint32List} {v : Int} {used : Nat} {X : Nat}

section
variable (h : z.Sound p)
include h

lemma Sound.norm_used_le_succ : z.norm_modulus_used ≤ z.modulus.used + 1 := by
  have hle := p.width_mul_steps_le z.modulus.used
  rw [h.norm_used]
  omega

lemma Sound.pow_le_magnitude : digit_base ^ (z.modulus.used - 1) ≤ z.modulus.magnitude :=
  pow_le_value h.used_pos (h.valid.top_digit h.used_pos.ne')

lemma Sound.limit_le : z.limit ≤ digit_base ^ z.modulus.used := by
  have hlt : z.modulus.magnitude < digit_base ^ z.modulus.used := z.modulus.digits.value_lt _
  have hle := h.norm_used_le_succ
  exact max_le hlt.le (Nat.pow_le_pow_right (by decide) (by omega))

/-- The product of two reduced numbers is reduced to less than twice the modulus. -/
lemma Sound.limit_mul_limit_le : z.limit * z.limit ≤ z.radix * z.modulus.magnitude := by
  have hmag := h.pow_le_magnitude
  rw [limit]
  rcases le_total (digit_base ^ (z.norm_modulus_used - 1)) z.modulus.magnitude with hmax | hmax
  · rw [max_eq_left hmax]
    exact Nat.mul_le_mul_right _ h.magnitude_lt.le
  rw [max_eq_right hmax]
  have hsucc := h.norm_used_le_succ
  calc digit_base ^ (z.norm_modulus_used - 1) * digit_base ^ (z.norm_modulus_used - 1)
      ≤ z.radix * digit_base ^ (z.norm_modulus_used - 2) := by
        rw [← pow_add, ← pow_add]
        exact Nat.pow_le_pow_right (by decide) (by omega)
    _ ≤ z.radix * z.modulus.magnitude :=
        Nat.mul_le_mul_left _ ((Nat.pow_le_pow_right (by decide) (by omega)).trans hmag)

/-- Digits that stand for an integer `v`: they represent `v*R` modulo the modulus. A padded modulus is
subtracted too rarely for the digits to be the least residue, but then they are zero only for zero. -/
structure Represents (z : MontgomeryReduction) (v : Int) (digits : Uint32List) (used : Nat) : Prop
    extends Padded digits used where
  used_le_modulus : used ≤ z.modulus.used
  value_lt : digits.value used < z.limit
  value_modEq : (digits.value used : Int) ≡ v * z.radix [ZMOD z.modulus.magnitude]
  zero_iff : z.modulus.magnitude < z.limit → (digits.value used = 0 ↔ v = 0)

lemma Sound.cancel {a b : Int}
    (hab : z.radix * a ≡ z.radix * b
      [ZMOD z.modulus.magnitude]) : a ≡ b [ZMOD z.modulus.magnitude] := by
  rw [modEq_iff_dvd] at hab ⊢
  rw [← mul_sub] at hab
  exact dvd_of_dvd_mul_right_of_gcd_one hab h.coprime.symm

end

lemma used_le_of_value_lt {used n : Nat} (htop : used ≠ 0 → digits.digit (used - 1) ≠ 0)
    (hlt : digits.value used < digit_base ^ n) : used ≤ n := by
  by_contra hgt
  have hle : digit_base ^ (used - 1) ≤ digits.value used := pow_le_value (by omega) (htop (by omega))
  have hpow := Nat.pow_le_pow_right (show 0 < digit_base by decide) (show n ≤ used - 1 by omega)
  omega

/-- Reducing a product of the numbers that stand for two integers gives digits for the product. -/
lemma Reduced.represents (hz : z.Sound p) (h : z.Reduced X digits used)
    (hX : X < z.radix * z.modulus.magnitude)
    (hmod : (X : Int) ≡ z.radix * (v * z.radix) [ZMOD z.modulus.magnitude])
    (h0 : z.modulus.magnitude < z.limit → (X = 0 ↔ v = 0)) : z.Represents v digits used := by
  obtain ⟨k, t, ht, hval⟩ := h.value_eq
  have htwo := ht.lt_two_mul hX
  have hle : z.modulus.magnitude ≤ z.limit := le_max_left _ _
  have htmod : (t : Int) ≡ v * z.radix [ZMOD z.modulus.magnitude] := by
    refine hz.cancel (ModEq.trans ?_ hmod)
    exact_mod_cast natCast_modEq_iff.mpr ht.modEq
  have hlt : digits.value used < z.limit := by
    rw [hval]
    split <;> omega
  refine ⟨h.toPadded, used_le_of_value_lt h.top_digit (hlt.trans_le hz.limit_le), hlt, ?_, fun hpad => ?_⟩
  · rw [hval]
    split
    · rw [Int.natCast_sub (by omega)]
      exact ModEq.trans (modEq_iff_dvd.mpr ⟨1, by ring⟩) htmod
    · exact htmod
  · rw [← h0 hpad, hval]
    constructor
    · intro h₀
      by_contra hne
      have hpos := ht.pos (Nat.pos_of_ne_zero hne)
      split at h₀ <;> omega
    · rintro rfl
      rw [ht.eq_zero hz.coprime]
      simp

variable {x y : Uint32List} {m n : Nat} {v w : Int} {r : Uint32List}

section
variable (hx : z.Represents v x m) (hy : z.Represents w y n)
include hx hy

lemma Represents.product_lt (hz : z.Sound p) : x.value m * y.value n <
    z.radix * z.modulus.magnitude :=
  (Nat.mul_lt_mul'' hx.value_lt hy.value_lt).trans_le hz.limit_mul_limit_le

lemma Represents.product_modEq : ((x.value m * y.value n : Nat) : Int) ≡
      z.radix * (v * w * z.radix)
      [ZMOD z.modulus.magnitude] := by
  generalize hR : (z.radix : Int) = R
  have h := hx.value_modEq.mul hy.value_modEq
  rw [hR] at h
  rwa [natCast_mul, show R * (v * w * R) = v * R * (w * R) by ring]

lemma Represents.product_zero_iff (hpad : z.modulus.magnitude < z.limit) : x.value m * y.value n = 0 ↔ v * w = 0 := by
  rw [Nat.mul_eq_zero, hx.zero_iff hpad, hy.zero_iff hpad, mul_eq_zero]

lemma mul_spec (hz : z.Sound p) (hlen : r.length = 2 * z.norm_modulus_used + 2) :
    ∃ args r' u, z.mul p x m y n r = .ok ({ z with args := args }, r', u) ∧ { z with args := args }.Sound p ∧
      r'.length = r.length ∧ z.Represents (v * w) r' u := by
  have hm := hx.used_le_modulus.trans hz.used_le
  have hn := hy.used_le_modulus.trans hz.used_le
  obtain ⟨r1, hprod, hlen1, -, hval⟩ :=
    mul_digits_spec p hx.toPadded hy.toPadded (show r.length % 2 = 0 by omega) (by omega)
  have hlt := hx.product_lt hy hz
  obtain ⟨args, r2, u, hreduce, hsound, hlen2, hred⟩ := reduce_spec hz (show r1.length % 2 = 0 by omega)
    (show m + n ≤ _ by omega) (by omega) (by rwa [hval])
  rw [hval] at hred
  exact ⟨args, r2, u, by simp only [mul, hprod, ok_bind, hreduce], hsound, hlen2.trans hlen1,
    hred.represents hz hlt (hx.product_modEq hy) (hx.product_zero_iff hy)⟩

end

lemma sqr_spec (hz : z.Sound p) {x r : Uint32List} {m : Nat} (hx : z.Represents v x m)
    (hlen : r.length = 2 * z.norm_modulus_used + 2) :
    ∃ args r' u, z.sqr p x m r = .ok ({ z with args := args }, r', u) ∧ { z with args := args }.Sound p ∧
      r'.length = r.length ∧ z.Represents (v * v) r' u := by
  have hm := hx.used_le_modulus.trans hz.used_le
  obtain ⟨r1, hprod, hlen1, hval⟩ := sqr_digits_spec p hx.toPadded (show r.length % 2 = 0 by omega) (by omega)
  have hlt := hx.product_lt hx hz
  obtain ⟨args, r2, u, hreduce, hsound, hlen2, hred⟩ := reduce_spec hz (show r1.length % 2 = 0 by omega)
    (show 2 * m ≤ _ by omega) (by omega) (by rwa [hval])
  rw [hval] at hred
  exact ⟨args, r2, u, by simp only [sqr, hprod, ok_bind, hreduce], hsound, hlen2.trans hlen1,
    hred.represents hz hlt (hx.product_modEq hx) (hx.product_zero_iff hx)⟩

/-- The parity of a number is that of its least significant digit. -/
lemma digit_zero_mod_two {x : BigIntImpl} (hused : 0 < x.used) : x.digits.digit 0 % 2 = x.magnitude % 2 := by
  have hdig : x.magnitude % digit_base ^ 1 = x.digits.value 1 := value_mod_pow x.digits.digit_lt hused
  rw [show x.digits.value 1 = x.digits.digit 0 from value_one] at hdig
  rw [← hdig, Nat.mod_mod_of_dvd _ (by decide)]

lemma create_spec {modulus : BigIntImpl} (hok : modulus.Valid) (hsign : modulus.is_negative = false)
    (hodd : modulus.magnitude % 2 = 1) : ∃ z, create p modulus = .ok z ∧ z.Sound p ∧ z.modulus = modulus := by
  have hused : 0 < modulus.used := Nat.pos_of_ne_zero fun h0 => by
    rw [hok.magnitude_eq_zero_iff.mpr h0] at hodd
    omega
  have hle := hok.used_le
  have heven := hok.even_length
  have hparity := digit_zero_mod_two hused
  have hwidth : 0 + p.width ≤ (new_digits 6).length := by
    cases p <;> decide
  obtain ⟨args0, hmul, hlen0, -⟩ := mul_mod_spec (show (new_digits 6).length = 6 from rfl) hwidth
  obtain ⟨args1, hwr1, hlen1, hdig1⟩ :=
    write_eq (show x_digit < args0.length by rw [hlen0]; decide) (modulus.digits.digit_lt 0)
  have hread0 : modulus.digits.read 0 = .ok (modulus.digits.digit 0) := read_eq (by omega)
  have hread1 : modulus.digits.read 1 = .ok (modulus.digits.digit 1) := read_eq (by omega)
  have h01 : args1.digit 0 = modulus.digits.digit 0 := by rw [hdig1, Function.update_self]
  cases p with
  | pure_dart =>
    obtain ⟨args2, hinv, hlen2, hmod⟩ := inv_digit_spec (hlen1.trans hlen0) (by rw [h01]; omega)
    refine ⟨⟨modulus, modulus.used, args2, 1⟩, ?_, ⟨hok, hsign, hodd, (Nat.one_mul _).symm, rfl, hlen2, ?_⟩, rfl⟩
    · simp only [create, hmul, Primitives.width, ok_bind, hread0, hwr1, if_true, hinv, pure_eq_ok]
    · simp only [Primitives.width, segment_one, pow_one]
      rwa [← h01]
  | intrinsics =>
    obtain ⟨args2, hwr2, hlen2, hdig2⟩ := write_eq
      (show x_high_digit < args1.length by rw [hlen1, hlen0]; decide) (modulus.digits.digit_lt 1)
    have h02 : args2.digit 0 = modulus.digits.digit 0 := by
      rw [hdig2, Function.update_of_ne (by decide), h01]
    have hpair : args2.segment 0 2 = modulus.digits.segment 0 2 := by
      rw [segment_two, segment_two, h02, hdig2, Function.update_self]
    obtain ⟨args3, hinv, hlen3, hmod⟩ := inv_digit_pair_spec (hlen2.trans (hlen1.trans hlen0)) (by rw [h02]; omega)
    rw [hpair] at hmod
    refine ⟨⟨modulus, modulus.used + modulus.used % 2, args3, 2⟩, ?_, ⟨hok, hsign, hodd, ?_, rfl, hlen3, hmod⟩, rfl⟩
    · simp only [create, hmul, Primitives.width, ok_bind, hread0, hread1, hwr1, hwr2, hinv, decide_true, check_true,
        Nat.and_one_is_mod, pure_eq_ok]
      rfl
    · show modulus.used + modulus.used % 2 = 2 * ((modulus.used + 1) / 2)
      omega

lemma Sound.modulus_value (h : z.Sound p) : z.modulus.value = z.modulus.magnitude := by
  rw [BigIntImpl.value, h.nonnegative]
  rfl

lemma Sound.magnitude_pos (h : z.Sound p) : 0 < z.modulus.magnitude := by
  have hodd := h.odd
  omega

/-- The least residue of `x*R` is zero only for zero. -/
lemma Sound.residue_eq_zero_iff (h : z.Sound p) {n : Nat} (hlt : n < z.modulus.magnitude) :
    n * z.radix % z.modulus.magnitude = 0 ↔ n = 0 := by
  constructor
  · intro h0
    exact Nat.eq_zero_of_dvd_of_lt (h.coprime.symm.dvd_of_dvd_mul_right (Nat.dvd_of_mod_eq_zero h0)) hlt
  · rintro rfl
    rw [Nat.zero_mul, Nat.zero_mod]

variable (hz : z.Sound p)
include hz

/-- The least residue of `x*R`. -/
lemma complement_spec {x c : BigIntImpl} (hx : x.Valid) (hlt : x.magnitude < z.modulus.magnitude) (hc : c.Valid)
    (hval : c.value = (x.magnitude * z.radix % z.modulus.magnitude : Nat)) :
    ∃ w, convert.complement z.modulus x c = .ok w ∧ w.Valid ∧ 0 ≤ w.value ∧ w.value < z.modulus.magnitude ∧
      w.value ≡ x.value * z.radix [ZMOD z.modulus.magnitude] ∧
      (w.value = 0 ↔ x.value = 0) := by
  have h0 := hz.residue_eq_zero_iff hlt
  have hmod : (c.value : Int) ≡ x.magnitude * z.radix [ZMOD z.modulus.magnitude] := by
    rw [hval, natCast_mod, natCast_mul]
    exact mod_modEq _ _
  have hless := Nat.mod_lt (x.magnitude * z.radix) hz.magnitude_pos
  generalize hr : x.magnitude * z.radix % z.modulus.magnitude = r at *
  cases hneg : x.is_negative with
  | true =>
    have hxlt := hx.is_negative_iff.mp hneg
    have hxvalue : x.value = -x.magnitude := by rw [BigIntImpl.value, hneg]; rfl
    have hcpos : ¬c.is_negative = true := fun h₀ => by
      have := hc.is_negative_iff.mp h₀
      omega
    obtain ⟨w, hw, hwok, hwval⟩ := sub_spec hz.valid hc
    rw [hz.modulus_value, hval] at hwval
    refine ⟨w, ?_, hwok, by omega, by omega, ?_, by omega⟩
    · rw [convert.complement, if_pos ⟨hneg, hcpos, hc.used_pos (by omega)⟩, hw]
    · rw [hwval, hxvalue, neg_mul]
      rw [hval] at hmod
      exact ModEq.trans (modEq_iff_dvd.mpr ⟨-1, by ring⟩) hmod.neg
  | false =>
    have hxvalue : x.value = x.magnitude := by rw [BigIntImpl.value, hneg]; rfl
    refine ⟨c, ?_, hc, by omega, by omega, by rwa [hxvalue], by omega⟩
    rw [convert.complement, if_neg (by rw [hneg]; simp)]

/-- Copying the digits of a number below the modulus. -/
lemma represents_copy {w : BigIntImpl} (hw : w.Valid) (hnn : 0 ≤ w.value) (hlt : w.value < z.modulus.magnitude)
    (hmod : w.value ≡ v * z.radix [ZMOD z.modulus.magnitude])
    (h0 : w.value = 0 ↔ v = 0) (heven : r.length % 2 = 0) (hroom : z.norm_modulus_used ≤ r.length) :
    ∃ r', copy_digits (w.used + (w.used &&& 1)) w.digits r = .ok r' ∧ r'.length = r.length ∧
      z.Represents v r' w.used := by
  have hmag : (w.magnitude : Int) = w.value := by
    have habs : w.value.natAbs = w.magnitude := natAbs_signed ..
    omega
  have hused : w.used ≤ z.modulus.used := by
    by_contra hgt
    have := hw.magnitude_lt (x := z.modulus) (by omega)
    omega
  have hle := hz.used_le
  obtain ⟨r', hcopy, hlen, hpad, hval⟩ := copy_digits_spec hw.toPadded heven (by omega)
  have hcast : (r'.value w.used : Int) = w.value := by rw [hval, ← hmag]; rfl
  refine ⟨r', hcopy, hlen, hpad, hused, ?_, by rwa [hcast], fun _ => by omega⟩
  have hlimit : z.modulus.magnitude ≤ z.limit := le_max_left _ _
  omega

lemma convert_spec {x : BigIntImpl} (hx : x.Valid) (hlt : x.magnitude < z.modulus.magnitude)
    (heven : r.length % 2 = 0) (hroom : z.norm_modulus_used ≤ r.length) :
    ∃ r' u, z.convert p x r = .ok (r', u) ∧ r'.length = r.length ∧ z.Represents x.value r' u := by
  obtain ⟨a, ha, havalid, havalue⟩ := abs_spec hx
  obtain ⟨c, hc, hsign⟩ := compare_to_spec havalid hz.valid
  rw [hz.modulus_value] at hsign
  have hneg : c < 0 := not_le.mp (mt (nonneg_iff_of_sign_eq hsign).mp (by omega))
  have hwidth : z.digits_per_step = 1 ∨ z.norm_modulus_used % 2 = 0 := by
    rw [hz.step_width, hz.norm_used]
    cases p with
    | pure_dart => exact .inl rfl
    | intrinsics => exact .inr (Nat.mul_mod_right 2 _)
  obtain ⟨b, hb, hbvalid, hbvalue⟩ := dl_shift_spec havalid z.norm_modulus_used
  have hne : z.modulus.value ≠ 0 := by
    rw [hz.modulus_value]
    omega
  obtain ⟨d, hd, hdok, hdval⟩ := remainder_spec p hbvalid hz.valid hne
  have hresidue : d.value = (x.magnitude * z.radix % z.modulus.magnitude : Nat) := by
    rw [hdval, hbvalue, havalue, hz.modulus_value, pow_mul]
    exact_mod_cast tmod_eq_emod_of_nonneg (by positivity)
  obtain ⟨w, hw, hwok, hnn, hwlt, hwmod, hwzero⟩ := complement_spec hz hx hlt hdok hresidue
  obtain ⟨r', hcopy, hlen, hrep⟩ := represents_copy hz hwok hnn hwlt hwmod hwzero heven hroom
  refine ⟨r', w.used, ?_, hlen, hrep⟩
  simp only [convert, ha, hc, hb, hd, hw, hcopy, ok_bind, decide_eq_true hneg, decide_eq_true hwidth, check_true,
    pure_eq_ok]

/-- What is made of digits that stand for `v`: its least residue, except that with a padded modulus
the multiples of the modulus other than zero become the modulus itself. -/
def outcome (z : MontgomeryReduction) (v : Int) : Int :=
  if z.modulus.magnitude < z.limit ∧ v ≠ 0 ∧ (z.modulus.magnitude : Int) ∣ v then z.modulus.magnitude
  else v % z.modulus.magnitude

/-- The last reduction divides by `R` once more. -/
lemma Reduced.value_eq_outcome (h : z.Reduced X digits used) (hX : X < z.radix)
    (hmod : (X : Int) ≡ v * z.radix [ZMOD z.modulus.magnitude])
    (h0 : z.modulus.magnitude < z.limit → (X = 0 ↔ v = 0)) : (digits.value used : Int) = z.outcome v := by
  obtain ⟨k, t, ht, hval⟩ := h.value_eq
  have hpos := hz.magnitude_pos
  have hle := ht.le hX
  have hlimit : z.modulus.magnitude ≤ z.limit := le_max_left _ _
  have htmod : (t : Int) ≡ v [ZMOD z.modulus.magnitude] := by
    rw [mul_comm v] at hmod
    refine hz.cancel (ModEq.trans ?_ hmod)
    exact_mod_cast natCast_modEq_iff.mpr ht.modEq
  have hresidue : t < z.modulus.magnitude → (t : Int) = v % z.modulus.magnitude := fun hlt => by
    rw [← htmod, emod_eq_of_lt (by omega) (by omega)]
  have hdvd : t = z.modulus.magnitude → (z.modulus.magnitude : Int) ∣ v := by
    rintro rfl
    exact modEq_zero_iff_dvd.mp (htmod.symm.trans (modEq_zero_iff_dvd.mpr (dvd_refl _)))
  rw [hval, outcome]
  by_cases hpad : z.modulus.magnitude < z.limit
  · rw [if_neg (by omega)]
    by_cases hbad : v ≠ 0 ∧ (z.modulus.magnitude : Int) ∣ v
    · have htpos := ht.pos (Nat.pos_of_ne_zero (mt (h0 hpad).mp hbad.1))
      omega
    rw [if_neg (fun h => hbad h.2)]
    refine hresidue (lt_of_le_of_ne hle fun heq => ?_)
    have hv : v = 0 := by
      by_contra hne
      exact hbad ⟨hne, hdvd heq⟩
    rw [(h0 hpad).mpr hv] at ht
    have := ht.eq_zero hz.coprime
    omega
  · have hgood : ¬(z.modulus.magnitude < z.limit ∧ v ≠ 0 ∧ (z.modulus.magnitude : Int) ∣ v) := fun hbad => hpad hbad.1
    by_cases hsub : z.limit ≤ t
    · have heq : t = z.modulus.magnitude := by omega
      rw [if_pos hsub, if_neg hgood, emod_eq_zero_of_dvd (hdvd heq), heq, Nat.sub_self]
      rfl
    · rw [if_neg hsub, if_neg hgood]
      exact hresidue (by omega)

lemma revert_spec {x : Uint32List} {u : Nat} (h : z.Represents v x u) :
    ∃ r, z.revert p x u = .ok r ∧ r.Valid ∧ r.value = z.outcome v := by
  have hnew := length_new_digits (2 * z.norm_modulus_used + 2)
  have hused := h.used_le_modulus.trans hz.used_le
  obtain ⟨r1, hcopy, hlen1, hpad, hval1⟩ := copy_digits_spec h.toPadded
    (show (new_digits (2 * z.norm_modulus_used + 2)).length % 2 = 0 by omega) (by omega)
  have hlt : x.value u < z.radix :=
    h.value_lt.trans_le (hz.limit_le.trans (Nat.pow_le_pow_right (by decide) hz.used_le))
  obtain ⟨args, r2, u', hreduce, -, hlen2, hred⟩ := reduce_spec hz (show r1.length % 2 = 0 by omega)
    (show u ≤ _ by omega) (by omega)
    (by rw [hval1]; exact hlt.trans_le (Nat.le_mul_of_pos_right _ hz.magnitude_pos))
  rw [hval1] at hred
  obtain ⟨r, hr, hok, hrval, -⟩ := make_spec false u' r2 hred.even_length hred.used_le hred.leading_zero
  refine ⟨r, by simp only [revert, hcopy, ok_bind, hreduce, hr], hok, ?_⟩
  rw [hrval]
  exact hred.value_eq_outcome hz hlt h.value_modEq h.zero_iff

end MontgomeryReduction
end dart.bigint
