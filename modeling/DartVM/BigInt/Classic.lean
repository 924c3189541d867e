import DartVM.BigInt.DivRem
import DartVM.BigInt.Square

namespace dart.bigint
open BigIntImpl Int

/-- `resultDigits[0..resultUsed-1] = xDigits[0..xUsed-1] rem yDigits[0..yUsed-1]`, where the divisor is
normalized by a shift of `nsh` bits: the arrays of the division and `resultUsed`. -/
def rem_digits (p : Primitives) (x_digits : Operand) (x_used : Nat) (y_digits : Uint32List) (y_used : Nat)
    (ny_digits : Uint32List) (nsh : Nat) (args tmp_digits result_digits : Uint32List) : Checked (Division × Nat) := do
  -- Initialize result_digits to the normalized positive dividend.
  let (result_digits, result_used) ← l_shift_digits x_digits x_used nsh result_digits
  let s ← long_division p args y_digits y_used ny_digits tmp_digits result_digits result_used
  -- Return the remainder, i.e. the denormalized digits.
  if 0 < nsh then
    let (result_digits, result_used) ← r_shift_digits .result y_used nsh s.result_digits
    return ({ s with result_digits := result_digits }, result_used)
  else
    return (s, y_used)

/-- Modular reduction using the classic algorithm. -/
structure ClassicReduction where
  modulus : BigIntImpl
  norm_modulus_used : Nat
  norm_modulus_digits : Uint32List
  neg_norm_modulus_digits : Uint32List
  modulus_nsh : Nat
  args : Uint32List
  tmp_digits : Uint32List

namespace ClassicReduction

/-- The factory. -/
def create (modulus : BigIntImpl) : Checked ClassicReduction := do
  let nsh ← normalization_shift modulus.digits modulus.used
  let norm_modulus ← modulus.shift_left nsh
  check (norm_modulus.used % 2 = 0)
  let args ← divisor_args norm_modulus.digits norm_modulus.used
  -- Negate norm_modulus so we can use mul_add instead of an unimplemented mul_sub.
  let neg_norm_modulus ← (← BigIntImpl.one.dl_shift norm_modulus.used).sub norm_modulus
  let neg_norm_modulus_digits ← all_digits neg_norm_modulus norm_modulus.used
  return ⟨modulus, norm_modulus.used, norm_modulus.digits, neg_norm_modulus_digits, nsh, args,
    new_digits (2 * norm_modulus.used)⟩
where
  all_digits (x : BigIntImpl) (n : Nat) : Checked Uint32List :=
    if x.used < n then clone_digits x.digits 0 n n else .ok x.digits

section
variable (p : Primitives) (z : ClassicReduction)

/-- The least residue, and the number of digits used. -/
def convert (x : BigIntImpl) (result_digits : Uint32List) : Checked (Uint32List × Nat) := do
  let residue ← residue_of p z.modulus x
  return (← copy_digits (residue.used + (residue.used &&& 1)) residue.digits result_digits, residue.used)
where
  residue_of (p : Primitives) (modulus x : BigIntImpl) : Checked BigIntImpl := do
    if x.is_negative ∨ 0 ≤ (← x.abs_compare modulus) then
      let remainder ← x.remainder p modulus
      let remainder ← positive modulus x remainder
      check (¬remainder.is_negative)
      return remainder
    else
      return x
  positive (modulus x remainder : BigIntImpl) : Checked BigIntImpl := do
    if x.is_negative ∧ 0 < remainder.used then
      check remainder.is_negative
      remainder.add modulus
    else
      return remainder

def revert (x_digits : Uint32List) (x_used : Nat) : Checked BigIntImpl := BigIntImpl.make false x_used x_digits

/-- `x = x mod _modulus`, and `xUsed`. -/
def reduce (x_digits : Uint32List) (x_used : Nat) : Checked (ClassicReduction × Uint32List × Nat) :=
  if x_used < z.modulus.used then
    .ok (z, x_digits, x_used)
  else do
    let (s, x_used) ← rem_digits p .result x_used z.norm_modulus_digits z.norm_modulus_used z.neg_norm_modulus_digits
      z.modulus_nsh z.args z.tmp_digits x_digits
    return ({ z with args := s.args, tmp_digits := s.tmp_digits }, s.result_digits, x_used)

def sqr (x_digits : Uint32List) (x_used : Nat) (result_digits : Uint32List) :
    Checked (ClassicReduction × Uint32List × Nat) := do
  let (result_digits, result_used) ← sqr_digits p x_digits x_used result_digits
  z.reduce p result_digits result_used

def mul (x_digits : Uint32List) (x_used : Nat) (y_digits : Uint32List)
    (y_used : Nat) (result_digits : Uint32List) : Checked (ClassicReduction × Uint32List × Nat) := do
  let (result_digits, result_used) ← mul_digits p x_digits x_used y_digits y_used result_digits
  z.reduce p result_digits result_used

end

/-- What holds of the arguments of a reduction. -/
structure Sound (z : ClassicReduction) : Prop where
  valid : z.modulus.Valid
  nonnegative : z.modulus.is_negative = false
  used_pos : 0 < z.modulus.used
  norm_used : z.norm_modulus_used = z.modulus.used + z.modulus.used % 2
  shift : z.modulus_nsh / 32 = z.modulus.used % 2
  norm_length : z.norm_modulus_used ≤ z.norm_modulus_digits.length
  norm_value : z.norm_modulus_digits.value z.norm_modulus_used = z.modulus.magnitude * 2 ^ z.modulus_nsh
  normalized : NormalizedDivisor (z.modulus.magnitude * 2 ^ z.modulus_nsh) z.norm_modulus_used z.neg_norm_modulus_digits
  divisor : HasDivisor (z.modulus.magnitude * 2 ^ z.modulus_nsh) z.norm_modulus_used z.args
  tmp_length : z.tmp_digits.length = 2 * z.norm_modulus_used

variable {p : Primitives} {z : ClassicReduction} {x : Uint32List} {u : Nat} {v : Int}

lemma Sound.magnitude_pos (h : z.Sound) : 0 < z.modulus.magnitude :=
  Nat.pos_of_ne_zero (mt h.valid.magnitude_eq_zero_iff.mp h.used_pos.ne')

lemma Sound.modulus_value (h : z.Sound) : z.modulus.value = z.modulus.magnitude := by
  rw [value, h.nonnegative]
  rfl

lemma Sound.pow_le_magnitude (h : z.Sound) : digit_base ^ (z.modulus.used - 1) ≤ z.modulus.magnitude :=
  positional.pow_le_value h.used_pos (h.valid.top_digit h.used_pos.ne')

/-- The division of a number below the square of the modulus, in place. -/
lemma rem_digits_spec (hz : z.Sound) (hlen : x.length = 2 * z.norm_modulus_used + 2)
    (hle : u ≤ 2 * z.modulus.used) (hge : z.modulus.used ≤ u)
    (hlt : x.value u < z.modulus.magnitude * z.modulus.magnitude) :
    ∃ s v, rem_digits p .result u z.norm_modulus_digits z.norm_modulus_used z.neg_norm_modulus_digits z.modulus_nsh
        z.args z.tmp_digits x = .ok (s, v) ∧
      HasDivisor (z.modulus.magnitude * 2 ^ z.modulus_nsh) z.norm_modulus_used s.args ∧
      s.tmp_digits.length = z.tmp_digits.length ∧ s.result_digits.length = x.length ∧ v ≤ z.modulus.used ∧
      (v % 2 = 1 → s.result_digits.digit v = 0) ∧ s.result_digits.value v = x.value u % z.modulus.magnitude := by
  have hnorm := hz.norm_used
  have hshift := hz.shift
  have hpos := hz.used_pos
  have htmp := hz.tmp_length
  obtain ⟨r1, v1, hlsh, hlen1, hval1, hvge, hvle, -, hvtop, -⟩ := l_shift_digits_spec (n := z.modulus_nsh)
    (show Operand.contents .result x = x from rfl) (show 0 < u by omega) (by omega) (by omega) (by omega)
  -- The dividend is below the square of the modulus, so that the shift leaves room in its array.
  have hv1 : v1 ≤ 2 * z.norm_modulus_used := by
    by_contra hgt
    have hbelow : x.value u * 2 ^ z.modulus_nsh < digit_base ^ (2 * z.norm_modulus_used) := by
      have hmod : z.modulus.magnitude < digit_base ^ z.norm_modulus_used :=
        (z.modulus.digits.value_lt _).trans_le (Nat.pow_le_pow_right (by decide) (by omega))
      calc x.value u * 2 ^ z.modulus_nsh
          ≤ z.modulus.magnitude * z.modulus.magnitude * 2 ^ z.modulus_nsh := Nat.mul_le_mul_right _ hlt.le
        _ = z.modulus.magnitude * (z.modulus.magnitude * 2 ^ z.modulus_nsh) := Nat.mul_assoc ..
        _ < digit_base ^ z.norm_modulus_used * digit_base ^ z.norm_modulus_used :=
          Nat.mul_lt_mul'' hmod hz.normalized.lt
        _ = digit_base ^ (2 * z.norm_modulus_used) := by rw [← pow_add, Nat.two_mul]
    have hpow : digit_base ^ (2 * z.norm_modulus_used) ≤ digit_base ^ (u + z.modulus_nsh / 32) :=
      Nat.pow_le_pow_right (by decide) (by omega)
    omega
  obtain ⟨s, hdivision, hsound, hlen2, htmp2, hrem, -⟩ := long_division_spec p hz.normalized hz.divisor hz.norm_length
    hz.norm_value (show z.norm_modulus_used ≤ v1 + v1 % 2 by omega) (show r1.length % 2 = 0 by omega) (by omega)
    (by omega) (show v1 + v1 % 2 ≤ z.tmp_digits.length by omega) (by omega)
  rw [hval1, Nat.mul_mod_mul_right] at hrem
  by_cases hnsh : 0 < z.modulus_nsh
  · obtain ⟨r3, v3, hrsh, hlen3, hv3, hval3, hlead3⟩ := r_shift_digits_spec (n := z.modulus_nsh)
      (show Operand.contents .result s.result_digits = s.result_digits from rfl)
      (show z.norm_modulus_used ≤ s.result_digits.length by omega) (by omega) (by omega)
    refine ⟨{ s with result_digits := r3 }, v3, ?_, hsound.args, htmp2, by simp only; omega, by omega, hlead3, ?_⟩
    · simp only [rem_digits, hlsh, ok_bind, hdivision, if_pos hnsh, hrsh, pure_eq_ok]
    · rw [hval3, hrem, Nat.mul_div_cancel _ (by positivity)]
  · have h0 : z.modulus_nsh = 0 := by omega
    refine ⟨s, z.norm_modulus_used, ?_, hsound.args, htmp2, by omega, by omega, fun h => absurd h (by omega), ?_⟩
    · simp only [rem_digits, hlsh, ok_bind, hdivision, if_neg hnsh, pure_eq_ok]
    · rw [hrem, h0, pow_zero, Nat.mul_one]

/-- Digits that stand for an integer `v`: those of its least residue. -/
structure Represents (z : ClassicReduction) (v : Int) (digits : Uint32List) (used : Nat) : Prop
    extends Padded digits used where
  used_le_modulus : used ≤ z.modulus.used
  value_eq : (digits.value used : Int) = v % z.modulus.magnitude

lemma Represents.value_lt (hz : z.Sound) {m : Nat} (hx : z.Represents v x m) : x.value m < z.modulus.magnitude := by
  have hpos := hz.magnitude_pos
  have hlt := emod_lt_of_pos v (show (0 : Int) < z.modulus.magnitude by omega)
  rw [← hx.value_eq] at hlt
  omega

variable {m n : Nat} {v w : Int}

lemma Represents.product_lt (hz : z.Sound) {x y : Uint32List} (hx : z.Represents v x m)
    (hy : z.Represents w y n) : x.value m * y.value n < z.modulus.magnitude * z.modulus.magnitude :=
  Nat.mul_lt_mul'' (hx.value_lt hz) (hy.value_lt hz)

lemma Represents.product_mod {x y : Uint32List} (hx : z.Represents v x m) (hy : z.Represents w y n) :
    ((x.value m * y.value n % z.modulus.magnitude : Nat) : Int) = v * w % z.modulus.magnitude := by
  rw [natCast_mod, natCast_mul, hx.value_eq, hy.value_eq, ← mul_emod]

lemma reduce_spec (hz : z.Sound) (hlen : x.length = 2 * z.norm_modulus_used + 2)
    (hx : Padded x u) (hle : u ≤ 2 * z.modulus.used) (hlt : x.value u < z.modulus.magnitude * z.modulus.magnitude)
    (hval : ((x.value u % z.modulus.magnitude : Nat) : Int) = v % z.modulus.magnitude) :
    ∃ args tmp x' u', z.reduce p x u = .ok ({ z with args := args, tmp_digits := tmp }, x', u') ∧
      { z with args := args, tmp_digits := tmp }.Sound ∧ x'.length = x.length ∧ z.Represents v x' u' := by
  by_cases hshort : u < z.modulus.used
  · have hsmall : x.value u < z.modulus.magnitude :=
      (x.value_lt u).trans_le ((Nat.pow_le_pow_right (by decide) (by omega)).trans hz.pow_le_magnitude)
    rw [Nat.mod_eq_of_lt hsmall] at hval
    exact ⟨z.args, z.tmp_digits, x, u, if_pos hshort, hz, rfl, hx, by omega, hval⟩
  obtain ⟨s, u', hrem, hargs, htmp, hlen', hule, hlead, hres⟩ := rem_digits_spec (p := p) hz hlen hle (by omega) hlt
  have hnorm := hz.norm_used
  refine ⟨s.args, s.tmp_digits, s.result_digits, u', ?_, ?_, hlen', ⟨by omega, by omega, hlead⟩, hule, ?_⟩
  · simp only [reduce, if_neg hshort, hrem, ok_bind, pure_eq_ok]
  · exact ⟨hz.valid, hz.nonnegative, hz.used_pos, hz.norm_used, hz.shift, hz.norm_length, hz.norm_value, hz.normalized,
      hargs, htmp.trans hz.tmp_length⟩
  · rw [hres, hval]

lemma mul_spec (hz : z.Sound) {x y r : Uint32List} (hx : z.Represents v x m)
    (hy : z.Represents w y n) (hlen : r.length = 2 * z.norm_modulus_used + 2) :
    ∃ args tmp r' u, z.mul p x m y n r = .ok ({ z with args := args, tmp_digits := tmp }, r', u) ∧
      { z with args := args, tmp_digits := tmp }.Sound ∧ r'.length = r.length ∧ z.Represents (v * w) r' u := by
  have hm := hx.used_le_modulus
  have hn := hy.used_le_modulus
  have hnorm := hz.norm_used
  obtain ⟨r1, hprod, hlen1, hpad, hval⟩ :=
    mul_digits_spec p hx.toPadded hy.toPadded (show r.length % 2 = 0 by omega) (by omega)
  obtain ⟨args, tmp, r2, u, hreduce, hsound, hlen2, hrep⟩ := reduce_spec (p := p) hz (hlen1.trans hlen) hpad
    (by omega) (by rw [hval]; exact hx.product_lt hz hy) (by rw [hval]; exact hx.product_mod hy)
  exact ⟨args, tmp, r2, u, by simp only [mul, hprod, ok_bind, hreduce], hsound, hlen2.trans hlen1, hrep⟩

lemma sqr_spec (hz : z.Sound) {x r : Uint32List} {m : Nat} (hx : z.Represents v x m)
    (hlen : r.length = 2 * z.norm_modulus_used + 2) :
    ∃ args tmp r' u, z.sqr p x m r = .ok ({ z with args := args, tmp_digits := tmp }, r', u) ∧
      { z with args := args, tmp_digits := tmp }.Sound ∧ r'.length = r.length ∧ z.Represents (v * v) r' u := by
  have hm := hx.used_le_modulus
  have hnorm := hz.norm_used
  obtain ⟨r1, hprod, hlen1, hval⟩ := sqr_digits_spec p hx.toPadded (show r.length % 2 = 0 by omega) (by omega)
  obtain ⟨args, tmp, r2, u, hreduce, hsound, hlen2, hrep⟩ := reduce_spec (p := p) hz (hlen1.trans hlen)
    (show Padded r1 (2 * m) from ⟨by omega, by omega, fun h => absurd h (by omega)⟩) (by omega)
    (by rw [hval]; exact hx.product_lt hz hx)
    (by rw [hval]; exact hx.product_mod hx)
  exact ⟨args, tmp, r2, u, by simp only [sqr, hprod, ok_bind, hreduce], hsound, hlen2.trans hlen1, hrep⟩

lemma revert_spec (h : z.Represents v x u) : ∃ r, revert x u = .ok r ∧ r.Valid ∧ r.value = v % z.modulus.magnitude := by
  obtain ⟨r, hr, hok, hval, -⟩ := make_spec false u x h.even_length h.used_le h.leading_zero
  exact ⟨r, hr, hok, by rw [hval]; exact h.value_eq⟩

/-- The remainder is completed as in `operator %`. -/
lemma positive_eq (hz : z.Sound) {x c : BigIntImpl} (hx : x.Valid) (hc : c.Valid)
    (hval : c.value = x.value.tmod z.modulus.value) : convert.positive z.modulus x c = euclidean_of z.modulus c := by
  have hiff : (x.is_negative = true ∧ 0 < c.used) ↔ c.is_negative = true := by
    rw [hc.is_negative_iff, hx.is_negative_iff]
    constructor
    · rintro ⟨hneg, hused⟩
      have hne : c.value ≠ 0 := fun h => by
        have := hc.magnitude_eq_zero_iff.not.mpr (by omega)
        have habs : c.value.natAbs = c.magnitude := natAbs_signed ..
        omega
      have hle := tmod_nonneg z.modulus.value (show 0 ≤ -x.value by omega)
      rw [neg_tmod] at hle
      omega
    · intro hneg
      refine ⟨?_, hc.used_pos (by omega)⟩
      by_contra hge
      exact absurd (tmod_nonneg z.modulus.value (not_lt.mp hge)) (by omega)
  rw [convert.positive, euclidean_of]
  by_cases hneg : c.is_negative = true
  · rw [if_pos (hiff.mpr hneg), if_pos hneg, hneg, check_true, ok_bind, hz.nonnegative]
    rfl
  · rw [if_neg (mt hiff.mp hneg), if_neg hneg, pure_eq_ok]

variable {x : BigIntImpl}

lemma residue_of_spec (hz : z.Sound) (hx : x.Valid) :
    ∃ w, convert.residue_of p z.modulus x = .ok w ∧ w.Valid ∧ w.value = x.value % z.modulus.magnitude := by
  have hpos := hz.magnitude_pos
  have hmod := hz.modulus_value
  obtain ⟨c, hc, hsign⟩ := abs_compare_spec hx hz.valid
  by_cases hcase : x.is_negative = true ∨ 0 ≤ c
  · obtain ⟨d, hd, hdok, hdval⟩ := remainder_spec p hx hz.valid (by omega)
    obtain ⟨w, hw, hwok, hwval⟩ := euclidean_of_spec hdok hz.valid hdval
    rw [hmod] at hwval
    have hnn : ¬w.is_negative = true := fun h => by
      have := hwok.is_negative_iff.mp h
      have := emod_nonneg x.value (show (z.modulus.magnitude : Int) ≠ 0 by omega)
      omega
    refine ⟨w, ?_, hwok, hwval⟩
    simp only [convert.residue_of, hc, ok_bind, if_pos hcase, hd, positive_eq hz hx hdok hdval, hw,
      decide_eq_true hnn, check_true, pure_eq_ok]
  · rw [not_or] at hcase
    have hxvalue : x.value = x.magnitude := by
      rw [value, Bool.eq_false_iff.mpr hcase.1]
      rfl
    have hlt : x.magnitude < z.modulus.magnitude := by
      have := nonneg_iff_of_sign_eq hsign
      omega
    refine ⟨x, ?_, hx, by rw [hxvalue, emod_eq_of_lt (by omega) (by omega)]⟩
    simp [convert.residue_of, hc, if_neg (not_or.mpr hcase)]

lemma convert_spec (hz : z.Sound) (hx : x.Valid) {r : Uint32List} (heven : r.length % 2 = 0)
    (hroom : z.norm_modulus_used ≤ r.length) :
    ∃ r' u, z.convert p x r = .ok (r', u) ∧ r'.length = r.length ∧ z.Represents x.value r' u := by
  obtain ⟨w, hw, hwok, hwval⟩ := residue_of_spec (p := p) hz hx
  have hpos := hz.magnitude_pos
  have hnn := emod_nonneg x.value (show (z.modulus.magnitude : Int) ≠ 0 by omega)
  have hlt := emod_lt_of_pos x.value (show (0 : Int) < z.modulus.magnitude by omega)
  have habs : w.value.natAbs = w.magnitude := natAbs_signed ..
  have hused : w.used ≤ z.modulus.used := by
    by_contra hgt
    have := hwok.magnitude_lt (x := z.modulus) (by omega)
    omega
  have hnorm := hz.norm_used
  obtain ⟨r', hcopy, hlen, hpad, hval⟩ := copy_digits_spec hwok.toPadded heven (by omega)
  refine ⟨r', w.used, by simp only [convert, hw, ok_bind, hcopy, pure_eq_ok], hlen, hpad, hused, ?_⟩
  have hmag : r'.value w.used = w.magnitude := hval
  omega

/-- A number between half a power of the base and that power has as many digits as the exponent. -/
lemma used_eq_of_normalized (hx : x.Valid) {n : Nat} (hn : 0 < n) (hlt : x.magnitude < digit_base ^ n)
    (hge : digit_base ^ n ≤ 2 * x.magnitude) : x.used = n := by
  have hle := hx.used_le_of_lt hlt
  by_contra hne
  have hsmall : x.magnitude < digit_base ^ (n - 1) :=
    (x.digits.value_lt _).trans_le (Nat.pow_le_pow_right (by decide) (by omega))
  have hpow : digit_base ^ n = 2 ^ 32 * digit_base ^ (n - 1) := by rw [← pow_succ', Nat.sub_add_cancel hn]
  omega

/-- The complement of the normalized modulus. -/
lemma complement_digits_spec {y : BigIntImpl} (hy : y.Valid) (hsign : y.is_negative = false) (hpos : 0 < y.used)
    (heven : y.used % 2 = 0) : ∃ b d digits, one.dl_shift y.used = .ok b ∧ b.sub y = .ok d ∧
      create.all_digits d y.used = .ok digits ∧ y.used ≤ digits.length ∧
      digits.value y.used = digit_base ^ y.used - y.magnitude := by
  obtain ⟨b, hb, hbvalid, hbvalue⟩ := dl_shift_spec valid_one y.used
  have hpow : (2 : Nat) ^ (32 * y.used) = digit_base ^ y.used := pow_mul ..
  have hbpow : b.value = (digit_base ^ y.used : Nat) := by
    rw [hbvalue, show one.value = 1 from rfl, Int.one_mul, ← hpow]
    rfl
  have hbmagnitude : b.magnitude = digit_base ^ y.used := by
    have habs : b.value.natAbs = b.magnitude := natAbs_signed ..
    omega
  have hbneg : b.is_negative = false := by
    rw [Bool.eq_false_iff]
    intro h
    have := hbvalid.is_negative_iff.mp h
    omega
  have hbused : b.used = y.used + 1 := by
    have hle := hbvalid.used_le_of_lt (n := y.used + 1) (by
      rw [hbmagnitude]
      exact Nat.pow_lt_pow_right (by decide) (by omega))
    by_contra hne
    have hlt : b.magnitude < digit_base ^ y.used :=
      (b.digits.value_lt _).trans_le (Nat.pow_le_pow_right (by decide) (by omega))
    omega
  have hylt : y.magnitude < digit_base ^ y.used := y.digits.value_lt _
  obtain ⟨d, hd, hdok, hdlength, hdval⟩ := sub_of_le_spec hbvalid hy (by omega) (by omega)
    (hbneg.trans hsign.symm) (by omega)
  rw [hbused, hbmagnitude] at hdval
  have hypos : 0 < y.magnitude := Nat.pos_of_ne_zero (mt hy.magnitude_eq_zero_iff.mp hpos.ne')
  have hlo : d.digits.value y.used = digit_base ^ y.used - y.magnitude := by
    have hmod : d.digits.value y.used = d.digits.value (y.used + 1) % digit_base ^ y.used :=
      (positional.value_mod_pow d.digits.digit_lt (by omega)).symm
    rw [hmod, hdval, Nat.mod_eq_of_lt (by omega)]
  by_cases hshort : d.used < y.used
  · obtain ⟨digits, hclone, hlen, hval, -⟩ := clone_digits_spec
      (show 0 + y.used ≤ d.digits.length by omega) le_rfl
    refine ⟨b, d, digits, hb, hd, by rw [create.all_digits, if_pos hshort, hclone], by omega, ?_⟩
    rw [hval, Uint32List.segment_zero_left, hlo]
  · exact ⟨b, d, d.digits, hb, hd, by rw [create.all_digits, if_neg hshort], by omega, hlo⟩

lemma create_spec {modulus : BigIntImpl} (hok : modulus.Valid) (hsign : modulus.is_negative = false)
    (hused : 0 < modulus.used) : ∃ z, create modulus = .ok z ∧ z.Sound ∧ z.modulus = modulus := by
  obtain ⟨nsh, hnsh, hdiv, hlt, hge⟩ := normalization_shift_spec hused hok.used_le (hok.top_digit hused.ne')
  obtain ⟨y, hy, hyok, hyval⟩ := shift_left_spec hok nsh
  have hval : modulus.value = modulus.magnitude := by
    rw [value, hsign]
    rfl
  have hynat : y.value = (modulus.magnitude * 2 ^ nsh : Nat) := by
    rw [hyval, hval]
    rfl
  have hymag : y.magnitude = modulus.magnitude * 2 ^ nsh := by
    have habs : y.value.natAbs = y.magnitude := natAbs_signed ..
    omega
  have hyneg : y.is_negative = false := by
    rw [Bool.eq_false_iff]
    intro h
    have := hyok.is_negative_iff.mp h
    omega
  have hyused : y.used = modulus.used + modulus.used % 2 := by
    refine used_eq_of_normalized hyok (by omega) ?_ ?_ <;> rw [hymag]
    · exact hlt
    · exact hge
  obtain ⟨args, hargs, hdivisor⟩ := divisor_args_spec (by omega) hyok.used_le hymag
  obtain ⟨b, d, digits, hb, hd, hdigs, hlen, hcompl⟩ := complement_digits_spec hyok hyneg (by omega) (by omega)
  rw [hymag] at hcompl
  have hnew := length_new_digits (2 * y.used)
  refine ⟨⟨modulus, y.used, y.digits, digits, nsh, args, new_digits (2 * y.used)⟩, ?_,
    ⟨hok, hsign, hused, hyused, hdiv, hyok.used_le, hymag, ⟨by simp only; omega, by simp only; omega, ?_, ?_, hlen, hcompl⟩,
      hdivisor, by simp only; omega⟩, rfl⟩
  · simp [create, hnsh, hy, decide_eq_true (show y.used % 2 = 0 by omega), hargs, hb, hd, hdigs]
  · rw [hyused]
    exact hlt
  · simp only
    rw [hyused]
    exact hge

end ClassicReduction
end dart.bigint
