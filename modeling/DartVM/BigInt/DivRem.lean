import DartVM.BigInt.DivisionStep

namespace dart.bigint
open loops long_division Uint32List Function Int

section
variable {x y n l : Nat} {ny : Uint32List} {p : Primitives}

/-- The loop ends when all digits of the quotient have been found. -/
lemma division_loop_spec (hy : NormalizedDivisor y n ny) (fuel : Nat) {s : Division} {j q a : Nat}
    (hs : s.Sound y n l) (h : Dividing x y n l j q a s.result_digits) (hdvd : p.width ∣ j) (hfuel : j < fuel) :
    ∃ s' q' a', division_loop p n l ny fuel s (n + j - 1) j = .ok s' ∧ s'.Sound y n l ∧
      s'.result_digits.length = s.result_digits.length ∧ s'.tmp_digits.length = s.tmp_digits.length ∧
      Dividing x y n l 0 q' a' s'.result_digits := by
  induction fuel generalizing s j q a with
  | zero => exact absurd hfuel (Nat.not_lt_zero j)
  | succ fuel ih =>
    by_cases hj : 0 < j
    · have hwidth := p.width_pos
      have hle := Nat.le_of_dvd hj hdvd
      obtain ⟨s1, hstep, hs1, hlen1, htmp1, -, h1⟩ := division_step_spec hy hs h hle hdvd
      obtain ⟨s', q', a', hrest, hs', hlen', htmp', h'⟩ := ih hs1 h1 (Nat.dvd_sub hdvd (dvd_refl _)) (by omega)
      refine ⟨s', q', a', ?_, hs', hlen'.trans hlen1, htmp'.trans htmp1, h'⟩
      rw [division_loop, if_pos hj, hstep, ok_bind]
      show division_loop p n l ny fuel s1 (n + j - 1 - p.width) (j - p.width) = .ok s'
      rw [show n + j - 1 - p.width = n + (j - p.width) - 1 by omega]
      exact hrest
    · obtain rfl : j = 0 := by omega
      exact ⟨s, q, a, if_neg hj, hs, rfl, rfl, h⟩

/-- The first digit of the quotient is one or zero, because the most significant bit of the divisor
is set. -/
lemma first_division_step_spec (hy : NormalizedDivisor y n ny) {r tmp : Uint32List} {u i : Nat} (hi : i = u + u % 2)
    (hn : n ≤ i) (hr : u + 1 + (u + 1) % 2 ≤ r.length) (htmp : i ≤ tmp.length)
    (htmpValue : tmp.value i = y * digit_base ^ (i - n)) : ∃ r' q a, first_division_step i u tmp i r = .ok r' ∧
    r'.length = r.length ∧ Dividing (r.value u) y n (u + 1) (i - n) q a r' := by
  have hpow : digit_base ^ (n + (i - n)) = digit_base ^ i := by rw [Nat.add_sub_of_le hn]
  have hhalf : digit_base ^ i ≤ 2 * (y * digit_base ^ (i - n)) := by
    rw [← hpow, pow_add, ← Nat.mul_assoc]
    exact Nat.mul_le_mul_right _ hy.top_bit
  have hxlt := r.value_lt u
  have hpos := hy.pos
  -- A dividend with fewer digits is smaller.
  have hshort : u < i → r.value u < tmp.value i := by
    intro hlt
    have hstep : digit_base ^ i = 2 ^ 32 * digit_base ^ u := by rw [show i = u + 1 by omega, pow_succ']
    omega
  obtain ⟨c, hc, hsign⟩ := compare_digits_spec (by omega) htmp hshort (fun h => absurd h (by omega))
  by_cases hge : 0 ≤ c
  · have hle : tmp.value i ≤ r.value u := by
      have := (nonneg_iff_of_sign_eq hsign).mp hge
      omega
    have hu : i = u := by
      by_contra hne
      exact absurd (hshort (by omega)) (by omega)
    obtain ⟨r1, hwr, hlen1, hdig1⟩ := write_eq (show u < r.length by omega) (show 1 < digit_base by norm_num)
    have hval1 : r1.value (u + 1) = r.value u + digit_base ^ u := by
      have hlo : r1.value u = r.value u := positional.value_congr fun k hk => by
        rw [hdig1, update_of_ne (by omega)]
      rw [r1.value_succ, hlo, hdig1, update_self, Nat.one_mul]
    obtain ⟨r2, hsub, hlen2, -, hval2⟩ := abs_sub_spec (show Operand.contents .result r1 = r1 from rfl)
      (by omega) (by omega) (show u + 1 ≤ r1.length by omega) htmp (by omega) (by omega)
    obtain ⟨r3, hclear, hlen3, -, hframe3⟩ := clear_leading_spec (show u + 1 + (u + 1) % 2 ≤ r2.length by omega)
    have hsame : r3.value (u + 1) = r2.value (u + 1) := positional.value_congr fun k hk => hframe3 k (by omega)
    refine ⟨r3, 1, r.value u - y * digit_base ^ (i - n), ?_, by omega, by omega, ?_, ?_, by omega, ?_⟩
    · simp only [first_division_step, hc, ok_bind, if_pos hge, decide_eq_true hu, check_true, hsub, hclear,
        show r.write u 1 = .ok r1 from hwr]
    · rw [hsame, hpow, hu, Nat.one_mul]
      rw [hu] at hval2 htmpValue hle
      omega
    · rw [hu] at hhalf ⊢
      omega
    · rw [hpow, hu, pow_succ']
      exact Nat.mul_le_mul_right _ (by norm_num)
  · have hlt : r.value u < tmp.value i := by
      have := mt (nonneg_iff_of_sign_eq hsign).mpr hge
      omega
    obtain ⟨r1, hwr, hlen1, hdig1⟩ := write_eq (show u < r.length by omega) (show 0 < digit_base by norm_num)
    obtain ⟨r2, hclear, hlen2, -, hframe2⟩ := clear_leading_spec (show u + 1 + (u + 1) % 2 ≤ r1.length by omega)
    have hval : r2.value (u + 1) = r.value u := by
      rw [r2.value_succ, hframe2 u (by omega), hdig1, update_self, Nat.zero_mul, Nat.add_zero]
      exact positional.value_congr fun k hk => by rw [hframe2 k (by omega), hdig1, update_of_ne (by omega)]
    refine ⟨r2, 0, r.value u, ?_, by omega, by omega, by omega, by omega, by omega, ?_⟩
    · simp only [first_division_step, hc, ok_bind, if_neg hge, hclear, show r.write u 0 = .ok r1 from hwr]
    · rw [hpow, Nat.zero_add, Nat.one_mul]
      exact Nat.pow_le_pow_right (by norm_num) (by omega)

/-- The division leaves the remainder in the lower digits and the quotient in those above. -/
lemma long_division_spec (p : Primitives) (hy : NormalizedDivisor y n ny) {args y_digits tmp r : Uint32List} {u : Nat}
    (hargs : HasDivisor y n args) (hyLength : n ≤ y_digits.length) (hyValue : y_digits.value n = y) (hn : n ≤ u + u % 2)
    (heven : r.length % 2 = 0) (hfour : 4 ≤ r.length) (hr : u + 1 + (u + 1) % 2 ≤ r.length) (htmp : u + u % 2 ≤ tmp.length)
    (htmpEven : tmp.length % 2 = 0) : ∃ s, long_division p args y_digits n ny tmp r u = .ok s ∧ s.Sound y n (u + 1) ∧
      s.result_digits.length = r.length ∧ s.tmp_digits.length = tmp.length ∧ s.result_digits.value n = r.value u % y ∧
      s.result_digits.segment n (u + 1 - n) = r.value u / y := by
  have hyEven := hy.even
  obtain ⟨tmp1, hshift, htmp1, htmpValue, -⟩ := dl_shift_digits_spec (n := u + u % 2 - n)
    (show Operand.contents (.array y_digits) tmp = y_digits from rfl) hy.pos hyLength (by omega)
  rw [Nat.add_sub_of_le hn, hyValue] at htmpValue
  obtain ⟨r1, q1, a1, hfst, hlen1, h1⟩ := first_division_step_spec hy rfl hn hr (by omega) htmpValue
  have hsound : Division.Sound y n (u + 1) ⟨args, tmp1, r1⟩ :=
    ⟨hargs, by simp only; omega, by simp only; omega, by simp only; omega, by simp only; omega⟩
  obtain ⟨s, q, a, hloop, hs, hlen, hstmp, h⟩ := division_loop_spec hy (u + u % 2 - n + 1) hsound h1
    (p.width_dvd (by omega)) (Nat.lt_succ_self _)
  have hval := h.value_eq
  have hdvd := h.dividend
  have hlt := h.remaining
  simp only [Nat.add_zero, pow_zero, Nat.mul_one] at hval hdvd hlt
  have hquot : r.value u / y = q ∧ r.value u % y = a :=
    (Nat.div_mod_unique hy.pos_divisor).mpr ⟨by rw [hdvd, Nat.mul_comm y, Nat.add_comm], hlt⟩
  have hlo := hlt.trans hy.lt
  refine ⟨s, ?_, hs, hlen.trans hlen1, hstmp.trans htmp1, ?_, ?_⟩
  · rw [Nat.add_sub_of_le hn] at hshift hloop
    simp only [long_division, check_bind hyEven, ok_bind, Nat.and_one_is_mod, if_neg (Nat.not_lt.mpr hn),
      hshift, hfst, hloop]
  · have hmod : s.result_digits.value n = s.result_digits.value (u + 1) % digit_base ^ n :=
      (positional.value_mod_pow s.result_digits.digit_lt (by omega)).symm
    rw [hmod, hval, hquot.2, Nat.add_comm, Nat.add_mul_mod_self_right, Nat.mod_eq_of_lt hlo]
  · have hdiv : s.result_digits.segment n (u + 1 - n) = s.result_digits.value (u + 1) / digit_base ^ n :=
      (positional.value_div_pow s.result_digits.digit_lt (by omega)).symm
    rw [hdiv, hval, hquot.1, Nat.add_comm, Nat.add_mul_div_right _ _ (by positivity), Nat.div_eq_of_lt hlo,
      Nat.zero_add]

end

/-- `int.bitLength` of a digit. -/
def bit_length (digit : Nat) : Nat := if digit = 0 then 0 else digit.log2 + 1

/-- The digits in the range `start` to `start + n - 1`, followed by leading zero digits. -/
def clone_digits (digits : Uint32List) (start n length : Nat) : Checked Uint32List :=
  (List.range n).foldlM (fun (result : Uint32List) i => do result.write i (← digits.read (i + start) : Nat))
    (new_digits length)

/-- The last quotient and remainder: the digits of the normalized remainder followed by those of
the quotient, and by how many bits the operands were shifted. -/
structure QuoRem where
  digits : Uint32List
  used : Nat
  rem_used : Nat
  rem_nsh : Nat
deriving DecidableEq

/-- The divisor and the dividend, shifted such that the divisor has an even number of digits and
its most significant bit is set, each with the number of digits used. -/
def normalize_operands (digits : Uint32List) (used : Nat) (other_digits : Uint32List) (other_used nsh : Nat) :
    Checked ((Uint32List × Nat) × (Uint32List × Nat)) :=
  if 0 < nsh then do
    -- Extra digits for normalization, also used for possible _mulAdd carry.
    let num_extra_digits := (nsh + digit_bits - 1) / digit_bits + 1
    let y ← l_shift_digits (.array other_digits) other_used nsh (new_digits (other_used + num_extra_digits))
    let result ← l_shift_digits (.array digits) used nsh (new_digits (used + num_extra_digits))
    return (y, result)
  else do
    -- Extra digit to hold possible _mulAdd carry.
    return ((other_digits, other_used), (← clone_digits digits 0 used (used + 1), used))

/-- The top digits of the divisor, for the estimation of the quotient. -/
def divisor_args (y_digits : Uint32List) (y_used : Nat) : Checked Uint32List := do
  let args ← (new_digits 4).write divisor_low_top_digit (← y_digits.read (y_used - 2) : Nat)
  args.write divisor_top_digit (← y_digits.read (y_used - 1) : Nat)

/-- Negates `y` so that `_mulAdd` can be used instead of a nonexistent `_mulSub`. -/
def negate_digits (y_digits : Uint32List) (y_used : Nat) : Checked Uint32List := do
  let ny_digits ← (new_digits (y_used + 2)).write y_used 1
  abs_sub .result (y_used + 1) y_digits y_used ny_digits

/-- By how many bits the operands are shifted. For 64-bit processing, the divisor has to have an
even number of digits. -/
def normalization_shift (other_digits : Uint32List) (other_used : Nat) : Checked Nat := do
  let nsh := digit_bits - bit_length (← other_digits.read (other_used - 1))
  return if other_used % 2 = 1 then nsh + digit_bits else nsh

/-- `_divRem`, when the result is not cached. -/
def compute_div_rem (p : Primitives) (digits : Uint32List) (used : Nat) (other_digits : Uint32List) (other_used : Nat) :
    Checked QuoRem := do
  check (other_used ≤ used)
  let nsh ← normalization_shift other_digits other_used
  let ((y_digits, y_used), (result_digits, result_used)) ←
    normalize_operands digits used other_digits other_used nsh
  let args ← divisor_args y_digits y_used
  let ny_digits ← negate_digits y_digits y_used
  let tmp_digits := new_digits (result_used + (result_used &&& 1))
  let s ← long_division p args y_digits y_used ny_digits tmp_digits result_digits result_used
  return ⟨s.result_digits, result_used + 1, y_used, nsh⟩

/-- The shift sets the most significant bit of a digit. -/
lemma bit_length_spec {d : Nat} (h0 : d ≠ 0) (hd : d < digit_base) :
    digit_bits - bit_length d < 32 ∧ 2 ^ 31 ≤ d * 2 ^ (digit_bits - bit_length d) ∧
      (d + 1) * 2 ^ (digit_bits - bit_length d) ≤ 2 ^ 32 := by
  have hlog : d.log2 < 32 := (Nat.log2_lt h0).mpr hd
  have hlo : 2 ^ d.log2 ≤ d := (Nat.le_log2 h0).mp le_rfl
  have hhi : d < 2 ^ (d.log2 + 1) := (Nat.log2_lt h0).mp (Nat.lt_succ_self _)
  rw [bit_length, if_neg h0]
  refine ⟨by rw [digit_bits]; omega, ?_, ?_⟩
  · calc 2 ^ 31 = 2 ^ d.log2 * 2 ^ (digit_bits - (d.log2 + 1)) := by rw [← pow_add, digit_bits]; congr 1; omega
      _ ≤ d * 2 ^ (digit_bits - (d.log2 + 1)) := Nat.mul_le_mul_right _ hlo
  · calc (d + 1) * 2 ^ (digit_bits - (d.log2 + 1)) ≤ 2 ^ (d.log2 + 1) * 2 ^ (digit_bits - (d.log2 + 1)) :=
        Nat.mul_le_mul_right _ hhi
      _ = 2 ^ 32 := by rw [← pow_add, digit_bits]; congr 1; omega

section
variable {other : Uint32List} {u nsh : Nat} {digits : Uint32List} {used : Nat} {y n : Nat}

/-- The shifted divisor has an even number of digits, and its most significant bit is set. -/
lemma normalization_shift_spec (hu : 0 < u) (hlen : u ≤ other.length) (htop : other.digit (u - 1) ≠ 0) : ∃ nsh,
    normalization_shift other u = .ok nsh ∧ nsh / 32 = u % 2 ∧ other.value u * 2 ^ nsh < digit_base ^ (u + u % 2) ∧
    digit_base ^ (u + u % 2) ≤ 2 * (other.value u * 2 ^ nsh) := by
  obtain ⟨ht, hlo, hhi⟩ := bit_length_spec htop (other.digit_lt (u - 1))
  have hrun : normalization_shift other u = .ok (digit_bits - bit_length (other.digit (u - 1)) + 32 * (u % 2)) := by
    rw [normalization_shift, read_eq (by omega), ok_bind, pure_eq_ok]
    rcases Nat.mod_two_eq_zero_or_one u with h | h <;> simp [h]
  generalize digit_bits - bit_length (other.digit (u - 1)) = t at ht hlo hhi hrun
  have hval : other.value u = other.value (u - 1) + other.digit (u - 1) * digit_base ^ (u - 1) := by
    have hsucc : other.value (u - 1 + 1) = _ := positional.value_succ
    rwa [Nat.sub_add_cancel hu] at hsucc
  have hpow : digit_base ^ (u + u % 2) = 2 ^ 32 * digit_base ^ (u - 1) * digit_base ^ (u % 2) := by
    rw [← pow_succ', Nat.sub_add_cancel hu, ← pow_add]
  have hshift : other.value u * 2 ^ (t + 32 * (u % 2)) = other.value u * 2 ^ t * digit_base ^ (u % 2) := by
    rw [pow_add, pow_mul, Nat.mul_assoc]
  have hrest := other.value_lt (u - 1)
  refine ⟨_, hrun, by omega, ?_, ?_⟩
  · rw [hshift, hpow]
    refine Nat.mul_lt_mul_of_pos_right ?_ (by positivity)
    calc other.value u * 2 ^ t < (other.digit (u - 1) + 1) * digit_base ^ (u - 1) * 2 ^ t := by
          refine Nat.mul_lt_mul_of_pos_right ?_ (by positivity)
          rw [Nat.add_mul, Nat.one_mul]
          omega
      _ = (other.digit (u - 1) + 1) * 2 ^ t * digit_base ^ (u - 1) := by ring
      _ ≤ 2 ^ 32 * digit_base ^ (u - 1) := Nat.mul_le_mul_right _ hhi
  · rw [hshift, hpow, ← Nat.mul_assoc]
    refine Nat.mul_le_mul_right _ ?_
    calc 2 ^ 32 * digit_base ^ (u - 1) = 2 * (2 ^ 31 * digit_base ^ (u - 1)) := by ring
      _ ≤ 2 * (other.digit (u - 1) * 2 ^ t * digit_base ^ (u - 1)) := Nat.mul_le_mul_left _ (Nat.mul_le_mul_right _ hlo)
      _ = 2 * (other.digit (u - 1) * digit_base ^ (u - 1) * 2 ^ t) := by ring
      _ ≤ 2 * (other.value u * 2 ^ t) := Nat.mul_le_mul_left _ (Nat.mul_le_mul_right _ (by omega))

lemma clone_digits_spec {start n length : Nat} (hdigs : start + n ≤ digits.length) (hn : n ≤ length) :
    ∃ r, clone_digits digits start n length = .ok r ∧ r.length = length + length % 2 ∧
      r.value n = digits.segment start n ∧ ∀ k, n ≤ k → r.digit k = 0 := by
  obtain ⟨r, hcopy, hlen, hval, hframe⟩ := copy_down_spec
    (show Operand.contents (.array digits) (new_digits length) = digits from rfl) hdigs
    (by rw [length_new_digits]; omega)
  refine ⟨r, hcopy, by rw [hlen, length_new_digits], hval, fun k hk => ?_⟩
  rw [hframe k hk, digit_new_digits]

lemma normalize_operands_spec (hu : 0 < u) (hle : u ≤ used)
    (hlen : used ≤ digits.length) (hother : u ≤ other.length) (hnsh : nsh / 32 = u % 2)
    (hlt : other.value u * 2 ^ nsh < digit_base ^ (u + u % 2)) :
    ∃ y r v, normalize_operands digits used other u nsh = .ok ((y, u + u % 2), (r, v)) ∧ u + u % 2 ≤ y.length ∧
      y.value (u + u % 2) = other.value u * 2 ^ nsh ∧ r.value v = digits.value used * 2 ^ nsh ∧
      u + u % 2 ≤ v + v % 2 ∧ r.length % 2 = 0 ∧ 4 ≤ r.length ∧ v + 1 + (v + 1) % 2 ≤ r.length := by
  by_cases hpos : 0 < nsh
  · generalize hextra : (nsh + digit_bits - 1) / digit_bits + 1 = extra
    rw [digit_bits] at hextra
    have hyLength := length_new_digits (u + extra)
    have hrLength := length_new_digits (used + extra)
    obtain ⟨y, v1, hy, hylen, hyval, hyge, hyle, -, hytop, -⟩ := l_shift_digits_spec (n := nsh)
      (show Operand.contents (.array other) (new_digits (u + extra)) = other from rfl) hu hother (by omega) (by omega)
    obtain ⟨r, v, hr, hrlen, hrval, hrge, hrle, hraligned, -, -⟩ := l_shift_digits_spec (n := nsh)
      (show Operand.contents (.array digits) (new_digits (used + extra)) = digits from rfl) (by omega) hlen (by omega)
      (by omega)
    have hv1 : v1 = u + u % 2 := by
      by_contra hne
      have htop := hytop (by omega)
      rw [hyval, hnsh] at htop
      omega
    rw [hv1] at hy hyval
    refine ⟨y, r, v, ?_, by omega, hyval, hrval, by omega, by omega, by omega, by omega⟩
    simp only [normalize_operands, if_pos hpos, hextra, digit_bits, hy, hr, ok_bind, pure_eq_ok]
  · obtain rfl : nsh = 0 := by omega
    have hueven : u % 2 = 0 := by omega
    obtain ⟨r, hclone, hrlen, hrval, -⟩ := clone_digits_spec (show 0 + used ≤ digits.length by omega)
      (show used ≤ used + 1 by omega)
    rw [segment_zero_left] at hrval
    refine ⟨other, r, used, ?_, by omega, ?_, by rw [hrval]; omega, by omega, by omega, by omega, by omega⟩
    · rw [normalize_operands, if_neg hpos, hclone, ok_bind, pure_eq_ok, hueven, Nat.add_zero]
    · rw [hueven, Nat.add_zero, pow_zero, Nat.mul_one]

lemma divisor_args_spec (hn : 2 ≤ n) (hlen : n ≤ digits.length)
    (hval : digits.value n = y) : ∃ args, divisor_args digits n = .ok args ∧ HasDivisor y n args := by
  have hnew : (new_digits 4).length = 4 := rfl
  obtain ⟨args1, hwr1, hlen1, hdig1⟩ :=
    write_eq (show divisor_low_top_digit < (new_digits 4).length by decide) (digits.digit_lt (n - 2))
  obtain ⟨args2, hwr2, hlen2, hdig2⟩ :=
    write_eq (show divisor_top_digit < args1.length by rw [hlen1]; decide) (digits.digit_lt (n - 1))
  refine ⟨args2, ?_, ⟨by omega, ?_⟩⟩
  · rw [divisor_args, read_eq (by omega), ok_bind, hwr1, ok_bind, read_eq (by omega), ok_bind, hwr2]
  · have hpair : args2.value 2 = digits.segment (n - 2) 2 := by
      rw [← segment_zero_left, segment_two, segment_two, hdig2, hdig1,
        update_of_ne (by decide), update_self, update_self, show n - 2 + 1 = n - 1 by omega]
    have hlt : y / digit_base ^ (n - 2) < digit_base ^ 2 := by
      refine Nat.div_lt_of_lt_mul ?_
      rw [← pow_add, Nat.sub_add_cancel hn, ← hval]
      exact digits.value_lt n
    rw [hpair, segment_eq_value (show n - 2 + 2 ≤ n by omega), hval, Nat.mod_eq_of_lt hlt]

lemma negate_digits_spec (hn : 0 < n) (hlen : n ≤ digits.length) (hval : digits.value n = y) (hy : 0 < y)
    : ∃ ny, negate_digits digits n = .ok ny ∧ n + 2 ≤ ny.length ∧ ny.value n = digit_base ^ n - y := by
  have hnew := length_new_digits (n + 2)
  obtain ⟨ny1, hwr, hlen1, hdig1⟩ :=
    write_eq (show n < (new_digits (n + 2)).length by omega) (show 1 < digit_base by norm_num)
  have hval1 : ny1.value (n + 1) = digit_base ^ n := by
    have hlo : ny1.value n = 0 := positional.value_eq_zero fun k hk => by
      rw [hdig1, update_of_ne (by omega), digit_new_digits]
    rw [ny1.value_succ, hlo, hdig1, update_self, Nat.zero_add, Nat.one_mul]
  have hlt := digits.value_lt n
  obtain ⟨ny2, hsub, hlen2, -, hdiff⟩ := abs_sub_spec (show Operand.contents .result ny1 = ny1 from rfl)
    (by omega) hn (show n + 1 ≤ ny1.length by omega) hlen (by omega) (by omega)
  refine ⟨ny2, ?_, by omega, ?_⟩
  · rw [negate_digits, show (new_digits (n + 2)).write n 1 = .ok ny1 from hwr, ok_bind, hsub]
  · have hmod : ny2.value n = ny2.value (n + 1) % digit_base ^ n :=
      (positional.value_mod_pow ny2.digit_lt (by omega)).symm
    rw [hmod, show ny2.value (n + 1) = digit_base ^ n - y by omega, Nat.mod_eq_of_lt (by omega)]

/-- The digits of the quotient and of the remainder, which is shifted. -/
lemma compute_div_rem_spec (p : Primitives) (hu : 0 < u) (hle : u ≤ used)
    (hlen : used ≤ digits.length) (hother : u ≤ other.length) (htop : other.digit (u - 1) ≠ 0) :
    ∃ r, compute_div_rem p digits used other u = .ok r ∧ r.used ≤ r.digits.length ∧ r.rem_used ≤ r.used ∧
      r.digits.value r.rem_used = digits.value used % other.value u * 2 ^ r.rem_nsh ∧
      r.digits.segment r.rem_used (r.used - r.rem_used) = digits.value used / other.value u := by
  obtain ⟨nsh, hnsh, hdiv, hlt, hge⟩ := normalization_shift_spec hu hother htop
  obtain ⟨y, r, v, hnormal, hylen, hyval, hrval, hv, heven, hfour, hroom⟩ :=
    normalize_operands_spec hu hle hlen hother hdiv hlt
  have htwo : 2 ≤ u + u % 2 := by omega
  have hypos : 0 < other.value u * 2 ^ nsh := by
    omega
  obtain ⟨args, hargs, hdivisor⟩ := divisor_args_spec htwo hylen hyval
  obtain ⟨ny, hny, hnylen, hnyvalue⟩ := negate_digits_spec (by omega) hylen hyval hypos
  have hnormalized : NormalizedDivisor (other.value u * 2 ^ nsh) (u + u % 2) ny :=
    ⟨by omega, by omega, hlt, hge, by omega, hnyvalue⟩
  have htmp := length_new_digits (v + v % 2)
  obtain ⟨s, hs, -, hslen, -, hsrem, hsquo⟩ := long_division_spec p hnormalized hdivisor hylen hyval hv heven hfour hroom
    (show v + v % 2 ≤ (new_digits (v + v % 2)).length by omega) (by omega)
  refine ⟨⟨s.result_digits, v + 1, u + u % 2, nsh⟩, ?_, by simp only; omega, by simp only; omega, ?_, ?_⟩
  · simp [compute_div_rem, decide_eq_true hle, hnsh, hnormal, hargs, hny, hs]
  · rw [hsrem, hrval, Nat.mul_mod_mul_right]
  · rw [hsquo, hrval, Nat.mul_div_mul_right _ _ (by positivity)]

end

namespace BigIntImpl

/-- The quotient, `digits[rem_used..used-1]` with proper sign. -/
def quotient_of (x other : BigIntImpl) (r : QuoRem) : Checked BigIntImpl := do
  let quo_used := r.used - r.rem_used
  let quo ← make false quo_used (← clone_digits r.digits r.rem_used quo_used quo_used)
  if x.is_negative ≠ other.is_negative ∧ 0 < quo.used then neg quo else return quo

/-- The remainder, denormalized `digits[0..rem_used-1]` with proper sign. -/
def remainder_of (x : BigIntImpl) (r : QuoRem) : Checked BigIntImpl := do
  let rem ← make false r.rem_used (← clone_digits r.digits 0 r.rem_used r.rem_used)
  finish x rem r.rem_nsh
where
  denormalize (rem : BigIntImpl) (nsh : Nat) : Checked BigIntImpl :=
    if 0 < nsh then shift_right rem nsh else .ok rem
  finish (x rem : BigIntImpl) (nsh : Nat) : Checked BigIntImpl := do
    let rem ← denormalize rem nsh
    if x.is_negative ∧ 0 < rem.used then neg rem else return rem

/-- The Euclidean remainder from that of the truncating division. -/
def euclidean_of (other result : BigIntImpl) : Checked BigIntImpl :=
  if result.is_negative then
    if other.is_negative then sub result other else add result other
  else
    .ok result

variable {x y : BigIntImpl} {r : QuoRem}

lemma quotient_of_spec {q : Nat} (hused : r.used ≤ r.digits.length) (hrem : r.rem_used ≤ r.used)
    (hq : r.digits.segment r.rem_used (r.used - r.rem_used) = q) :
    ∃ z, quotient_of x y r = .ok z ∧ z.Valid ∧ z.value = signed (x.is_negative != y.is_negative) q := by
  obtain ⟨digits, hclone, hlen, hval, h0⟩ := clone_digits_spec
    (show r.rem_used + (r.used - r.rem_used) ≤ r.digits.length by omega) le_rfl
  obtain ⟨quo, hquo, hok, hquoValue, -⟩ := make_spec false (r.used - r.rem_used) digits (by omega) (by omega)
    (fun _ => h0 _ le_rfl)
  rw [hval, hq] at hquoValue
  by_cases hsign : x.is_negative ≠ y.is_negative ∧ 0 < quo.used
  · obtain ⟨z, hz, hzok, hzval⟩ := neg_spec hok
    refine ⟨z, by simp [quotient_of, hclone, hquo, if_pos hsign, hz], hzok, ?_⟩
    rw [hzval, hquoValue, ← signed_not, show (x.is_negative != y.is_negative) = true from bne_iff_ne.mpr hsign.1]
    rfl
  refine ⟨quo, by simp [quotient_of, hclone, hquo, if_neg hsign], hok, ?_⟩
  by_cases hne : x.is_negative ≠ y.is_negative
  · have h0 : quo.used = 0 := by
      by_contra h
      exact hsign ⟨hne, by omega⟩
    have hq0 : q = 0 := by
      rw [hok.value_eq_zero h0] at hquoValue
      simpa [signed] using hquoValue.symm
    rw [hquoValue, hq0, signed_zero, signed_zero]
  · rw [hquoValue, show (x.is_negative != y.is_negative) = false from by simpa using hne]

lemma remainder_of_spec {a : Nat} (hrem : r.rem_used ≤ r.digits.length)
    (ha : r.digits.value r.rem_used = a * 2 ^ r.rem_nsh) :
    ∃ z, remainder_of x r = .ok z ∧ z.Valid ∧ z.value = signed x.is_negative a := by
  obtain ⟨digits, hclone, hlen, hval, h0⟩ := clone_digits_spec (show 0 + r.rem_used ≤ r.digits.length by omega) le_rfl
  obtain ⟨rem, hmake, hok, hremValue, -⟩ := make_spec false r.rem_used digits (by omega) (by omega)
    (fun _ => h0 _ le_rfl)
  rw [hval, segment_zero_left, ha] at hremValue
  have hshift : ∃ z, remainder_of.denormalize rem r.rem_nsh = .ok z ∧ z.Valid ∧ z.value = a := by
    rw [remainder_of.denormalize]
    by_cases hnsh : 0 < r.rem_nsh
    · obtain ⟨z, hz, hzok, hzval⟩ := shift_right_spec hok r.rem_nsh
      refine ⟨z, by rw [if_pos hnsh, hz], hzok, ?_⟩
      have hcast : signed false (a * 2 ^ r.rem_nsh) = (a : Int) * 2 ^ r.rem_nsh := by simp [signed]
      rw [hzval, hremValue, hcast, mul_ediv_cancel _ (by positivity)]
    · refine ⟨rem, if_neg hnsh, hok, ?_⟩
      rw [hremValue, show r.rem_nsh = 0 by omega, pow_zero, Nat.mul_one]
      rfl
  obtain ⟨z, hz, hzok, hzval⟩ := hshift
  by_cases hsign : x.is_negative = true ∧ 0 < z.used
  · obtain ⟨w, hw, hwok, hwval⟩ := neg_spec hzok
    refine ⟨w, by simp [remainder_of, remainder_of.finish, hclone, hmake, hz, if_pos hsign, hw], hwok, ?_⟩
    rw [hwval, hzval, hsign.1, signed, if_pos rfl]
  refine ⟨z, ?_, hzok, ?_⟩
  · simp [remainder_of, remainder_of.finish, hclone, hmake, hz, if_neg hsign]
  cases hneg : x.is_negative with
  | false => rw [hzval]; rfl
  | true =>
    have h0 : z.used = 0 := by
      by_contra h
      exact hsign ⟨hneg, by omega⟩
    rw [hzok.value_eq_zero h0] at hzval
    rw [hzok.value_eq_zero h0, show a = 0 by exact_mod_cast hzval.symm, signed_zero]

lemma signed_tdiv (s t : Bool) (m n : Nat) : (signed s m).tdiv (signed t n) = signed (s != t) (m / n) := by
  cases s <;> cases t <;> simp [signed, Int.neg_tdiv, Int.tdiv_neg]

lemma signed_tmod (s t : Bool) (m n : Nat) : (signed s m).tmod (signed t n) = signed s (m % n) := by
  cases s <;> cases t <;> simp [signed, neg_tmod, tmod_neg, tmod_eq_emod_of_nonneg (natCast_nonneg m)]

lemma Valid.is_negative_iff (hx : x.Valid) : x.is_negative = true ↔ x.value < 0 := by
  rw [value]
  constructor
  · intro h
    have hne : x.magnitude ≠ 0 := fun h0 => by
      rw [hx.zero_sign (hx.magnitude_eq_zero_iff.mp h0)] at h
      cases h
    rw [h, signed, if_pos rfl]
    omega
  · intro h
    cases hneg : x.is_negative with
    | false =>
      rw [hneg, signed, if_neg (by decide)] at h
      omega
    | true => rfl

/-- Completing a remainder that is negative. -/
lemma euclidean_of_spec {z : BigIntImpl} (hz : z.Valid) (hy : y.Valid) (hval : z.value = x.value.tmod y.value) :
    ∃ w, euclidean_of y z = .ok w ∧ w.Valid ∧ w.value = x.value % y.value := by
  rw [emod_eq_tmod, ← hval, euclidean_of]
  by_cases hneg : z.is_negative = true
  · have hlt := hz.is_negative_iff.mp hneg
    have hcases : ¬(0 ≤ x.value ∨ y.value ∣ x.value) := by
      rintro (h | h)
      · exact absurd (tmod_nonneg y.value h) (by omega)
      · exact absurd (tmod_eq_zero_of_dvd h) (by omega)
    rw [if_pos hneg, if_neg hcases]
    by_cases hyneg : y.is_negative = true
    · have hyval := hy.is_negative_iff.mp hyneg
      obtain ⟨w, hw, hwok, hwval⟩ := sub_spec hz hy
      exact ⟨w, by rw [if_pos hyneg, hw], hwok, by rw [hwval]; omega⟩
    have hyval := mt hy.is_negative_iff.mpr hyneg
    obtain ⟨w, hw, hwok, hwval⟩ := add_spec hz hy
    exact ⟨w, by rw [if_neg hyneg, hw], hwok, by rw [hwval]; omega⟩
  · have hge := mt hz.is_negative_iff.mpr hneg
    refine ⟨z, if_neg hneg, hz, ?_⟩
    have hcases : 0 ≤ x.value ∨ y.value ∣ x.value := by
      by_contra hnot
      rw [not_or, not_le] at hnot
      have hopp := tmod_nonneg y.value (show 0 ≤ -x.value by omega)
      rw [neg_tmod] at hopp
      exact hnot.2 (dvd_of_tmod_eq_zero (by omega))
    rw [if_pos hcases]
    simp

/-- `operator ~/`; an `IntegerDivisionByZeroException` is thrown when `other` is zero. -/
def truncating_div (p : Primitives) (x other : BigIntImpl) : Checked BigIntImpl :=
  if other.used = 0 then .error .overflow
  else if x.used < other.used then .ok zero
  else do quotient_of x other (← compute_div_rem p x.digits x.used other.digits other.used)

def remainder (p : Primitives) (x other : BigIntImpl) : Checked BigIntImpl :=
  if other.used = 0 then .error .overflow
  else if x.used < other.used then .ok x
  else do remainder_of x (← compute_div_rem p x.digits x.used other.digits other.used)

/-- `operator %`, the Euclidean modulo. -/
def modulo (p : Primitives) (x other : BigIntImpl) : Checked BigIntImpl := do
  euclidean_of other (← remainder p x other)

lemma Valid.used_pos (hy : y.Valid) (hne : y.value ≠ 0) : 0 < y.used := by
  by_contra h
  exact hne (hy.value_eq_zero (by omega))

variable (p : Primitives) (hx : x.Valid) (hy : y.Valid) (hne : y.value ≠ 0)
include hx hy hne

lemma truncating_div_spec : ∃ z, truncating_div p x y = .ok z ∧ z.Valid ∧ z.value = x.value.tdiv y.value := by
  have hused := hy.used_pos hne
  have htdiv : x.value.tdiv y.value = signed (x.is_negative != y.is_negative) (x.magnitude / y.magnitude) := signed_tdiv ..
  rw [truncating_div, if_neg (by omega), htdiv]
  by_cases hlt : x.used < y.used
  · have hsmall := hy.magnitude_lt hlt
    exact ⟨zero, if_pos hlt, valid_zero, by rw [Nat.div_eq_of_lt hsmall, signed_zero, value_zero]⟩
  obtain ⟨r, hr, hrused, hrem, -, hquo⟩ :=
    compute_div_rem_spec p hused (by omega) hx.used_le hy.used_le (hy.top_digit hused.ne')
  obtain ⟨z, hz, hok, hval⟩ := quotient_of_spec hrused hrem hquo
  exact ⟨z, by rw [if_neg hlt, hr, ok_bind, hz], hok, hval⟩

lemma remainder_spec : ∃ z, remainder p x y = .ok z ∧ z.Valid ∧ z.value = x.value.tmod y.value := by
  have hused := hy.used_pos hne
  have htmod : x.value.tmod y.value = signed x.is_negative (x.magnitude % y.magnitude) := signed_tmod ..
  rw [remainder, if_neg (by omega), htmod]
  by_cases hlt : x.used < y.used
  · have hsmall := hy.magnitude_lt hlt
    exact ⟨x, if_pos hlt, hx, by rw [Nat.mod_eq_of_lt hsmall, value]⟩
  obtain ⟨r, hr, hrused, hrem, hmod, -⟩ :=
    compute_div_rem_spec p hused (by omega) hx.used_le hy.used_le (hy.top_digit hused.ne')
  obtain ⟨z, hz, hok, hval⟩ := remainder_of_spec (hrem.trans hrused) hmod
  exact ⟨z, by rw [if_neg hlt, hr, ok_bind, hz], hok, hval⟩

lemma modulo_spec : ∃ z, modulo p x y = .ok z ∧ z.Valid ∧ z.value = x.value % y.value := by
  obtain ⟨r, hr, hrok, hrval⟩ := remainder_spec p hx hy hne
  obtain ⟨z, hz, hok, hval⟩ := euclidean_of_spec hrok hy hrval
  exact ⟨z, by rw [modulo, hr, ok_bind, hz], hok, hval⟩

end BigIntImpl
end dart.bigint
