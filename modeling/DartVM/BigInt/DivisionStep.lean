import DartVM.BigInt.LongDivision

namespace dart.bigint
open loops long_division Uint32List Nat Primitives Function

/-- A divisor of `n` digits, an even number, whose most significant bit is set, and the
digits of its complement. -/
structure NormalizedDivisor (y n : Nat) (ny_digits : Uint32List) : Prop where
  even : n % 2 = 0
  pos : 0 < n
  lt : y < digit_base ^ n
  top_bit : digit_base ^ n ≤ 2 * y
  length : n ≤ ny_digits.length
  complement : ny_digits.value n = digit_base ^ n - y

/-- The arguments for the estimation hold the two leading digits of the divisor. -/
structure HasDivisor (y n : Nat) (args : Uint32List) : Prop where
  length : args.length = 4
  leading : args.value 2 = y / digit_base ^ (n - 2)

/-- The invariant of a division of `x` by `y`, of which `j` more digits of the quotient have to be
found: the first `l` digits are the quotient so far and, at the `n + j` places below, what
remains of the dividend. -/
structure Dividing (x y n l j q a : Nat) (result_digits : Uint32List) : Prop where
  length : l ≤ result_digits.length
  value_eq : result_digits.value l = q * digit_base ^ (n + j) + a
  remaining : a < y * digit_base ^ j
  dividend : x = q * (y * digit_base ^ j) + a
  room : (q + 1) * digit_base ^ (n + j) ≤ digit_base ^ l

section
variable {x y n l j q a : Nat} {ny args r : Uint32List} {p : Primitives}

lemma NormalizedDivisor.two_le (hy : NormalizedDivisor y n ny) : 2 ≤ n := by
  have heven := hy.even
  have hpos := hy.pos
  omega

lemma NormalizedDivisor.pos_divisor (hy : NormalizedDivisor y n ny) : 0 < y := by
  have htop := hy.top_bit
  have hpos : 0 < digit_base ^ n := by positivity
  omega

lemma Dividing.le (h : Dividing x y n l j q a r) : n + j ≤ l := by
  have hle : 1 * digit_base ^ (n + j) ≤ (q + 1) * digit_base ^ (n + j) := mul_le_mul_right _ (by omega)
  rw [one_mul] at hle
  exact (Nat.pow_le_pow_iff_right (by norm_num)).mp (hle.trans h.room)

section
variable (hy : NormalizedDivisor y n ny) (h : Dividing x y n l j q a r)
include hy h

lemma Dividing.remaining_lt : a < digit_base ^ (n + j) := by
  rw [pow_add]
  exact h.remaining.trans_le (mul_le_mul_right _ hy.lt.le)

/-- The leading digits of what remains. -/
lemma Dividing.leading_segment {i k : Nat} (hi : i + k = n + j) : r.segment i k = a / digit_base ^ i := by
  have hlt : a / digit_base ^ i < digit_base ^ k :=
    Nat.div_lt_of_lt_mul (by rw [← pow_add, hi]; exact h.remaining_lt hy)
  rw [segment_eq_value (hi ▸ h.le), h.value_eq, ← hi, pow_add, mul_comm (digit_base ^ i), ← mul_assoc,
    add_comm, add_mul_div_right _ _ (by positivity), add_mul_mod_self_right, mod_eq_of_lt hlt]

end

lemma HasDivisor.top_digit (hargs : HasDivisor y n args) (hn : 2 ≤ n) : args.digit 1 = y / digit_base ^ (n - 1) := by
  have hdiv : args.digit 1 = args.value 2 / digit_base := by
    have hseg : args.segment 1 1 = args.value 2 / digit_base ^ 1 % digit_base ^ 1 := segment_eq_value (by norm_num)
    rw [segment_one, pow_one] at hseg
    rw [hseg, mod_eq_of_lt]
    exact Nat.div_lt_of_lt_mul (by rw [← pow_two]; exact args.value_lt 2)
  rw [hdiv, hargs.leading, Nat.div_div_eq_div_mul, ← pow_succ, show n - 2 + 1 = n - 1 by omega]

/-- The digit of the quotient that is looked for. -/
def nextDigit (y a t : Nat) : Nat := a / (y * digit_base ^ t)

lemma Dividing.nextDigit_lt (hy : NormalizedDivisor y n ny) (h : Dividing x y n l j q a r) {t k : Nat} (ht : t + k = j) :
    nextDigit y a t < digit_base ^ k := by
  have hpos : 0 < y * digit_base ^ t := mul_pos hy.pos_divisor (by positivity)
  rw [nextDigit, div_lt_iff_lt_mul hpos]
  calc a < y * digit_base ^ j := h.remaining
    _ = digit_base ^ k * (y * digit_base ^ t) := by
      rw [← ht]
      ring

lemma write_quotient (hargs : HasDivisor y n args) {v : Nat} (hv : v < digit_base ^ p.width) :
    ∃ args', p.write args quotient_digit v = .ok args' ∧ HasDivisor y n args' ∧
      args'.segment quotient_digit p.width = v := by
  have hlen := hargs.length
  have hwidth : p.width ≤ 2 := by cases p <;> decide
  obtain ⟨args', hwr, hlen', hseg, hframe⟩ :=
    write_segment (show quotient_digit + p.width ≤ args.length by rw [quotient_digit]; omega) hv
  refine ⟨args', hwr, ⟨hlen'.trans hlen, ?_⟩, hseg⟩
  rw [← hargs.leading]
  exact positional.value_congr fun k hk => hframe k (.inl hk)

variable (hy : NormalizedDivisor y n ny)
include hy

lemma NormalizedDivisor.le_top_digit : 2 ^ 31 ≤ y / digit_base ^ (n - 1) := by
  have hpow : digit_base ^ n = 2 * (2 ^ 31 * digit_base ^ (n - 1)) := by
    rw [← Nat.mul_assoc, ← pow_succ', show digit_base ^ n = digit_base ^ (n - 1 + 1) by rw [Nat.sub_add_cancel hy.pos],
      pow_succ']
  have htop := hy.top_bit
  rw [Nat.le_div_iff_mul_le (by positivity)]
  omega

variable (hargs : HasDivisor y n args)
include hargs
variable (h : Dividing x y n l j q a r)
include h

/-- The estimated digit is not too small. -/
lemma estimate_pure_dart_spec (hj : 1 ≤ j) (hr : 4 ≤ r.length) :
    ∃ args', estimate_quotient_digit .pure_dart args r (n + j - 1) = .ok (args', 1) ∧ HasDivisor y n args' ∧
      nextDigit y a (j - 1) ≤ args'.digit quotient_digit := by
  have hn := hy.two_le
  have hle := h.le
  have hlen := h.length
  have hargs4 := hargs.length
  have hbound := h.nextDigit_lt hy (t := j - 1) (k := 1) (by omega)
  have hwr {v : Nat} (hv : v < digit_base) : ∃ args', args.write quotient_digit v = .ok args' ∧ HasDivisor y n args' ∧
      args'.digit quotient_digit = v := by
    obtain ⟨args', hwr, hargs', hdig⟩ := write_quotient hargs (by rwa [width, pow_one])
    exact ⟨args', hwr, hargs', by rwa [width, segment_one] at hdig⟩
  obtain ⟨full, hfull, hfull1, hfull2⟩ := hwr (show digit_mask < digit_base by norm_num)
  have hmax : nextDigit y a (j - 1) ≤ full.digit quotient_digit := by
    rw [hfull2]
    exact le_sub_one_of_lt hbound
  have htop := hargs.top_digit hn
  have hread : r.read (n + j - 1) = .ok (r.digit (n + j - 1)) := read_eq (by omega)
  have hread1 : r.read (n + j - 1 - 1) = .ok (r.digit (n + j - 1 - 1)) := read_eq (by omega)
  have hreadTop : args.read divisor_top_digit = .ok (args.digit 1) := read_eq (by rw [divisor_top_digit]; omega)
  by_cases heq : r.digit (n + j - 1) = args.digit 1
  · refine ⟨full, ?_, hfull1, hmax⟩
    simp only [estimate_quotient_digit, check_bind hr, ok_bind, hread, hreadTop, if_pos heq, hfull, pure_eq_ok]
  have hnum : r.digit (n + j - 1 - 1) + r.digit (n + j - 1) * digit_base = a / digit_base ^ (n + j - 2) := by
    have hlead := h.leading_segment hy (i := n + j - 2) (k := 2) (by omega)
    rwa [segment_two, show n + j - 2 + 1 = n + j - 1 by omega] at hlead
  have hquot : nextDigit y a (j - 1) * args.digit 1 ≤ a / digit_base ^ (n + j - 2) := by
    have hlead := quotient_mul_leading_le (a := a) (y := y) (u := digit_base ^ (j - 1)) (v := digit_base ^ (n - 1))
      (by positivity) (by positivity)
    rwa [← pow_add, show n - 1 + (j - 1) = n + j - 2 by omega, ← htop] at hlead
  have htopBit := hy.le_top_digit
  rw [← htop] at htopBit
  have hdig := r.digit_lt (n + j - 1)
  have hdig1 := r.digit_lt (n + j - 1 - 1)
  simp only [digit_base] at hdig hdig1 hnum
  have hdvd : r.digit (n + j - 1) <<< (digit_bits - 1) ||| r.digit (n + j - 1 - 1) >>> 1 =
      a / (2 ^ 32) ^ (n + j - 2) / 2 := by
    rw [show digit_bits - 1 = 31 from rfl, shiftRight_eq_div_pow, ← shiftLeft_add_eq_or_of_lt (by omega),
      shiftLeft_eq, ← hnum]
    omega
  have hdivide : divide (a / (2 ^ 32) ^ (n + j - 2) / 2) (args.digit 1 >>> 1) =
      .ok (a / (2 ^ 32) ^ (n + j - 2) / 2 / (args.digit 1 / 2)) := by
    rw [divide, shiftRight_eq_div_pow, pow_one, if_neg (by omega)]
  have hest := quotient_le_halves (by omega) hquot
  generalize hq : a / (2 ^ 32) ^ (n + j - 2) / 2 / (args.digit 1 / 2) = quotient at hdivide hest
  have hrun : estimate_quotient_digit .pure_dart args r (n + j - 1) =
      (if quotient > digit_mask then do return (← args.write quotient_digit (digit_mask : Nat), 1)
       else do return (← args.write quotient_digit (quotient : Nat), 1)) := by
    simp only [estimate_quotient_digit, check_bind hr, ok_bind, hread, hread1, hreadTop, if_neg heq,
      hdvd, fit_eq (show a / (2 ^ 32) ^ (n + j - 2) / 2 < 2 ^ 63 by omega), hdivide]
  rw [hrun]
  by_cases hbig : quotient > digit_mask
  · exact ⟨full, by rw [if_pos hbig, hfull, ok_bind, pure_eq_ok], hfull1, hmax⟩
  obtain ⟨args', hargs', hdiv, hdig'⟩ := hwr (show quotient < 2 ^ 32 by simp only [digit_mask] at hbig; omega)
  exact ⟨args', by rw [if_neg hbig, hargs', ok_bind, pure_eq_ok], hdiv, by rwa [hdig']⟩

lemma estimate_intrinsics_spec (hj : 2 ≤ j) :
    ∃ args', estimate_quotient_digit .intrinsics args r (n + j - 1) = .ok (args', 2) ∧ HasDivisor y n args' ∧
      nextDigit y a (j - 2) ≤ args'.segment quotient_digit 2 := by
  have hn := hy.two_le
  have hle := h.le
  have hlen := h.length
  have hargs4 := hargs.length
  have hbase : digit_base ^ 2 = 2 ^ 64 := by norm_num
  have hbound := h.nextDigit_lt hy (t := j - 2) (k := 2) (by omega)
  have hwr {v : Nat} (hv : v < 2 ^ 64) : ∃ args', intrinsics.write args quotient_digit v = .ok args' ∧
      HasDivisor y n args' ∧ args'.segment quotient_digit 2 = v := write_quotient hargs (hbase ▸ hv)
  have hyt : intrinsics.read args divisor_low_top_digit = .ok (y / digit_base ^ (n - 2)) := by
    rw [Primitives.read_eq (by rw [divisor_low_top_digit, Primitives.width]; omega), Uint32List.segment_zero_left,
      width, hargs.leading]
  have hdh : intrinsics.read r (n + j - 1 - 1) = .ok (a / digit_base ^ (n + j - 2)) := by
    rw [Primitives.read_eq (by rw [Primitives.width]; omega), Primitives.width,
      show n + j - 1 - 1 = n + j - 2 by omega, h.leading_segment hy (by omega)]
  have hdl : intrinsics.read r (n + j - 1 - 3) = .ok (r.segment (n + j - 4) 2) := by
    rw [Primitives.read_eq (by rw [Primitives.width]; omega), Primitives.width, show n + j - 1 - 3 = n + j - 4 by omega]
  -- The leading digits of what remains cannot exceed those of the divisor.
  have hlead : a / digit_base ^ (n + j - 2) ≤ y / digit_base ^ (n - 2) := by
    rw [show n + j - 2 = j + (n - 2) by omega, pow_add, ← Nat.div_div_eq_div_mul]
    exact Nat.div_le_div_right ((Nat.div_lt_iff_lt_mul (by positivity)).mpr h.remaining).le
  by_cases heq : a / digit_base ^ (n + j - 2) = y / digit_base ^ (n - 2)
  · obtain ⟨args', hargs', hdiv, hdig⟩ := hwr (v := 2 ^ 64 - 1) (by norm_num)
    refine ⟨args', ?_, hdiv, by rw [hdig]; omega⟩
    simp only [estimate_quotient_digit, hyt, hdh, ok_bind, if_pos heq, hargs', pure_eq_ok]
  have hlt : a / digit_base ^ (n + j - 2) < y / digit_base ^ (n - 2) := by omega
  have hnum : (a / digit_base ^ (n + j - 2)) <<< 64 + r.segment (n + j - 4) 2 = a / digit_base ^ (n + j - 4) := by
    have hseg := r.segment_add (n + j - 4) 2 2
    rw [h.leading_segment hy (by omega), show n + j - 4 + 2 = n + j - 2 by omega, h.leading_segment hy (i := n + j - 2)
      (by omega), hbase] at hseg
    rw [hseg, shiftLeft_eq]
    omega
  have hquot : nextDigit y a (j - 2) * (y / digit_base ^ (n - 2)) ≤ a / digit_base ^ (n + j - 4) := by
    have hest := quotient_mul_leading_le (a := a) (y := y) (u := digit_base ^ (j - 2)) (v := digit_base ^ (n - 2))
      (by positivity) (by positivity)
    rwa [← pow_add, show n - 2 + (j - 2) = n + j - 4 by omega] at hest
  have hfits : a / digit_base ^ (n + j - 4) / (y / digit_base ^ (n - 2)) < 2 ^ 64 := by
    have hdigs := r.segment_lt (n + j - 4) 2
    have hmul := mul_le_mul_right (2 ^ 64) (succ_le_of_lt hlt)
    rw [hbase] at hdigs
    rw [shiftLeft_eq] at hnum
    rw [div_lt_iff_lt_mul (zero_lt_of_lt hlt), ← hnum]
    rw [succ_mul] at hmul
    linarith
  obtain ⟨args', hargs', hdiv, hdig⟩ := hwr hfits
  refine ⟨args', ?_, hdiv, ?_⟩
  · simp only [estimate_quotient_digit, hyt, hdh, hdl, ok_bind, if_neg heq, if_pos hlt, hnum, hargs', pure_eq_ok]
  · rw [hdig]
    exact (le_div_iff_mul_le (zero_lt_of_lt hlt)).mpr hquot

lemma estimate_quotient_digit_spec (hj : p.width ≤ j) (hr : 4 ≤ r.length) :
    ∃ args', estimate_quotient_digit p args r (n + j - 1) = .ok (args', p.width) ∧ HasDivisor y n args' ∧
      nextDigit y a (j - p.width) ≤ args'.segment quotient_digit p.width := by
  cases p with
  | pure_dart =>
    obtain ⟨args', hrun, hdiv, hle⟩ := estimate_pure_dart_spec hy hargs h hj hr
    exact ⟨args', hrun, hdiv, by rwa [width, segment_one]⟩
  | intrinsics => exact estimate_intrinsics_spec hy hargs h hj

end

section
variable {y n l j t q a e : Nat} {ny args r : Uint32List} {p : Primitives} {k : Nat}

/-- The state after the complement of the divisor has been added `e` times, with the place
`t` of the digits of the quotient that are looked for. -/
structure Trying (y n l j t q a e : Nat) (result_digits : Uint32List) : Prop where
  length : l ≤ result_digits.length
  value_eq : result_digits.value l = q * digit_base ^ (n + j) + (a + e * (digit_base ^ n - y) * digit_base ^ t)
  enough : nextDigit y a t ≤ e

section
variable (hy : NormalizedDivisor y n ny) (h : Trying y n l j t q a e r) (hl : n + j ≤ l)
include hy h hl
variable (ht : t + p.width = j)
include ht
variable (he : e < digit_base ^ p.width)
include he

lemma Trying.word_eq : r.segment (n + t) p.width =
      (a + e * (digit_base ^ n - y) * digit_base ^ t) / (digit_base ^ n * digit_base ^ t) := by
  have hpos : 0 < digit_base ^ t := by positivity
  have hlo := complement_lt hpos hy.pos_divisor hy.lt.le h.enough
  have hle : (e + 1) * (digit_base ^ n * digit_base ^ t) ≤ digit_base ^ p.width * (digit_base ^ n * digit_base ^ t) :=
    mul_le_mul_right _ he
  have hpow : digit_base ^ (n + j) = digit_base ^ p.width * (digit_base ^ n * digit_base ^ t) := by
    rw [← pow_add, ← pow_add]
    congr 1
    omega
  have hlt : (a + e * (digit_base ^ n - y) * digit_base ^ t) / (digit_base ^ n * digit_base ^ t) < digit_base ^ p.width :=
    (div_lt_iff_lt_mul (by positivity)).mpr (hlo.trans_le hle)
  rw [segment_eq_value (show n + t + p.width ≤ l by omega), h.value_eq, hpow, pow_add, ← mul_assoc q,
    add_comm, add_mul_div_right _ _ (by positivity), add_mul_mod_self_right, mod_eq_of_lt hlt]

lemma Trying.word_le : r.segment (n + t) p.width ≤ e := by
  rw [h.word_eq hy hl ht he]
  exact complement_word_le (by positivity) hy.pos_divisor hy.lt.le h.enough

lemma Trying.word_lt_iff : r.segment (n + t) p.width < e ↔ nextDigit y a t < e := by
  rw [h.word_eq hy hl ht he]
  exact complement_word_lt_iff (by positivity) hy.pos_divisor hy.lt.le

end

/-- The comparison of the digits in the place of the quotient with the quotient, by digits. -/
lemma needs_correction_spec (hargs : args.length = 4) (hr : k + p.width ≤ r.length)
    (hle : r.segment k p.width ≤ args.segment quotient_digit p.width) : needs_correction p args r (k + p.width - 1) =
      .ok (decide (r.segment k p.width < args.segment quotient_digit p.width)) := by
  cases p with
  | pure_dart =>
    rw [width] at hr hle ⊢
    rw [needs_correction, Uint32List.read_eq (by omega), ok_bind, Uint32List.read_eq (by rw [quotient_digit]; omega), ok_bind,
      pure_eq_ok, segment_one, segment_one, Nat.add_sub_cancel]
  | intrinsics =>
    rw [width] at hr hle ⊢
    rw [segment_two, segment_two] at hle ⊢
    have h1 := r.digit_lt k
    have h2 := args.digit_lt quotient_digit
    simp only [digit_base, quotient_digit, reduceAdd] at h1 h2 hle ⊢
    have hhi : r.digit (k + 1) ≤ args.digit 3 := by omega
    have hread1 : r.read (k + 2 - 1) = .ok (r.digit (k + 1)) := read_eq (by omega)
    have hread2 : r.read (k + 2 - 1 - 1) = .ok (r.digit k) := read_eq (by omega)
    have hread3 : args.read quotient_high_digit = .ok (args.digit 3) := read_eq (by rw [quotient_high_digit]; omega)
    have hread4 : args.read quotient_digit = .ok (args.digit 2) := read_eq (by rw [quotient_digit]; omega)
    simp only [needs_correction, hread1, hread2, hread3, hread4, ok_bind, decide_eq_true hhi, check_true, pure_eq_ok]
    congr 1
    rw [← Bool.decide_or, decide_eq_decide]
    omega

lemma decrement_quotient_spec (hargs : HasDivisor y n args) (hr : k + p.width ≤ r.length)
    (hpos : 0 < args.segment quotient_digit p.width)
    (hle : r.segment k p.width ≤ args.segment quotient_digit p.width - 1) :
    ∃ args', decrement_quotient p args r (k + p.width - 1) =
        .ok (args', decide (r.segment k p.width < args'.segment quotient_digit p.width)) ∧
      HasDivisor y n args' ∧ args'.segment quotient_digit p.width = args.segment quotient_digit p.width - 1 := by
  have hlen := hargs.length
  cases p with
  | pure_dart =>
    rw [width] at hr hle hpos ⊢
    simp only [segment_one] at hle hpos ⊢
    have hlt : args.digit quotient_digit - 1 < digit_base := (sub_le _ _).trans_lt (args.digit_lt _)
    obtain ⟨args', hwr, hdiv, hdig⟩ := write_quotient hargs (by rwa [width, pow_one])
    rw [width, segment_one] at hdig
    refine ⟨args', ?_, hdiv, hdig⟩
    have hread1 : args.read quotient_digit = .ok (args.digit quotient_digit) := read_eq (by rw [quotient_digit]; omega)
    have hread2 : r.read (k + 1 - 1) = .ok (r.digit k) := read_eq (by omega)
    have hcast : ((args.digit quotient_digit : Nat) : Int) - 1 = ((args.digit quotient_digit - 1 : Nat) : Int) := by omega
    have hwr' : args.write quotient_digit ((args.digit quotient_digit - 1 : Nat) : Int) = .ok args' := hwr
    simp only [decrement_quotient, hread1, hread2, ok_bind, hcast, hwr', pure_eq_ok, hdig, cast_lt]
  | intrinsics =>
    rw [width] at hr hle hpos ⊢
    have hlo := args.digit_lt quotient_digit
    have hhi := args.digit_lt quotient_high_digit
    have hword := args.segment_two quotient_digit
    simp only [digit_base, quotient_digit, quotient_high_digit, reduceAdd] at hlo hhi hword hle hpos
    -- The digits of the decremented quotient.
    obtain ⟨low, hlo', hwriteLow⟩ : ∃ low : Nat, low < 2 ^ 32 ∧
        (∀ digits : Uint32List, digits.write 2 ((args.digit 2 : Int) - 1) = digits.write 2 (low : Int)) ∧
        low + (if args.digit 2 = 0 then args.digit 3 - 1 else args.digit 3) * 2 ^ 32 = args.segment 2 2 - 1 := by
      by_cases h0 : args.digit 2 = 0
      · refine ⟨2 ^ 32 - 1, by norm_num, fun digits => ?_, by rw [if_pos h0]; omega⟩
        rw [h0]
        exact digits.write_neg_one 2
      refine ⟨args.digit 2 - 1, by omega, fun digits => ?_, by rw [if_neg h0]; omega⟩
      rw [cast_sub (by omega)]
      rfl
    obtain ⟨hwriteLow, hval⟩ := hwriteLow
    have hhighCast : (if args.digit 2 = 0 then ((args.digit 3 : Nat) : Int) - 1 else args.digit 3) =
        ((if args.digit 2 = 0 then args.digit 3 - 1 else args.digit 3 : Nat) : Int) := by
      split <;> omega
    generalize hhighEq : (if args.digit 2 = 0 then args.digit 3 - 1 else args.digit 3) = high at hval hhighCast
    have hhi' : high < 2 ^ 32 := by split at hhighEq <;> omega
    obtain ⟨args1, hwr1, hlen1, hdig1⟩ := write_eq (show 3 < args.length by omega) hhi'
    obtain ⟨args2, hwr2, hlen2, hdig2⟩ := write_eq (show 2 < args1.length by omega) hlo'
    have hseg : args2.segment quotient_digit 2 = args.segment quotient_digit 2 - 1 := by
      rw [segment_two, hdig2, update_self, update_of_ne (by decide), hdig1, update_self]
      exact hval
    have hneeds := needs_correction_spec (p := .intrinsics) (show args2.length = 4 by omega) hr
      (by rw [width, hseg]; exact hle)
    refine ⟨args2, ?_, ⟨by omega, ?_⟩, hseg⟩
    · have hread1 : args.read quotient_digit = .ok (args.digit 2) := read_eq (by rw [quotient_digit]; omega)
      have hread2 : args.read quotient_high_digit = .ok (args.digit 3) := read_eq (by rw [quotient_high_digit]; omega)
      rw [width] at hneeds
      simp only [decrement_quotient, hread1, hread2, ok_bind, hhighCast, hwr1, hwriteLow, hwr2, hneeds, pure_eq_ok]
    · rw [← hargs.leading]
      refine positional.value_congr fun k hk => ?_
      rw [hdig2, update_of_ne (by omega), hdig1, update_of_ne (by omega)]

section
variable (hy : NormalizedDivisor y n ny) {tmp : Uint32List} (htmp : n + t ≤ tmp.length)
  (hval : tmp.value (n + t) = (digit_base ^ n - y) * digit_base ^ t)
include hy htmp hval

/-- One iteration takes back one multiple of the divisor. -/
lemma Trying.sub_spec (h : Trying y n l j t q a (e + 1) r) (hlt : nextDigit y a t ≤ e) (hl : n + t ≤ l) :
    ∃ r', abs_sub .result l tmp (n + t) r = .ok r' ∧ r'.length = r.length ∧ Trying y n l j t q a e r' := by
  have hsum := h.value_eq
  rw [add_mul, one_mul, add_mul] at hsum
  obtain ⟨r', hrun, hlen, -, hdiff⟩ := abs_sub_spec (show Operand.contents .result r = r from rfl) hl
    (by have := hy.pos; omega) h.length htmp h.length (by omega)
  exact ⟨r', hrun, hlen, hlen ▸ h.length, by omega, hlt⟩

/-- The loop ends with the right quotient, and its number of iterations does not exceed the
estimated one. -/
lemma correction_loop_spec (hl : n + j ≤ l) (ht : t + p.width = j) (fuel : Nat) {args r : Uint32List}
    (hargs : HasDivisor y n args) (htry : Trying y n l j t q a (args.segment quotient_digit p.width) r)
    (hlt : nextDigit y a t < args.segment quotient_digit p.width) (hfuel : args.segment quotient_digit p.width ≤ fuel) :
    ∃ args' r', correction_loop p l tmp (n + t) (n + j - 1) fuel args r = .ok (args', r') ∧ HasDivisor y n args' ∧
      r'.length = r.length ∧ Trying y n l j t q a (nextDigit y a t) r' := by
  induction fuel generalizing args r with
  | zero => exact absurd hlt (by omega)
  | succ fuel ih =>
    obtain ⟨e, he⟩ := exists_eq_succ_of_ne_zero (ne_zero_of_lt hlt)
    rw [he] at htry hlt hfuel
    have hbound := args.segment_lt quotient_digit p.width
    obtain ⟨r1, hsub, hlen1, htry1⟩ := htry.sub_spec hy htmp hval (le_of_lt_succ hlt) (by omega)
    have hword := htry1.word_le hy hl ht (by omega)
    have hroom : n + t + p.width ≤ r1.length := by
      have := htry1.length
      omega
    obtain ⟨args1, hdecr, hargs1, hquot⟩ := decrement_quotient_spec hargs hroom (by omega) (by rwa [he])
    rw [he, succ_sub_one] at hquot
    rw [hquot, show n + t + p.width - 1 = n + j - 1 by omega] at hdecr
    by_cases hagain : nextDigit y a t < e
    · have hdecide : decide (r1.segment (n + t) p.width < e) = true :=
        decide_eq_true ((htry1.word_lt_iff hy hl ht (by omega)).mpr hagain)
      obtain ⟨args', r', hrest, hargs', hlen', htry'⟩ := ih hargs1 (hquot ▸ htry1) (by omega) (by omega)
      refine ⟨args', r', ?_, hargs', hlen'.trans hlen1, htry'⟩
      rw [correction_loop, hsub, ok_bind, hdecr, ok_bind, hdecide]
      exact hrest
    have hdecide : decide (r1.segment (n + t) p.width < e) = false :=
      decide_eq_false (mt (htry1.word_lt_iff hy hl ht (by omega)).mp hagain)
    have hex : nextDigit y a t = e := by omega
    refine ⟨args1, r1, ?_, hargs1, hlen1, hex ▸ htry1⟩
    rw [correction_loop, hsub, ok_bind, hdecr, ok_bind, hdecide]
    rfl

end
end

variable {x y n l j q a : Nat} {ny : Uint32List} {p : Primitives}

/-- What holds of the arrays of a division: they are long enough, and pairs of digits can be
accessed. -/
structure Division.Sound (y n l : Nat) (s : Division) : Prop where
  args : HasDivisor y n s.args
  even_length : s.result_digits.length % 2 = 0
  four_le : 4 ≤ s.result_digits.length
  tmp_length : l ≤ s.tmp_digits.length + 1
  tmp_even : s.tmp_digits.length % 2 = 0

lemma Primitives.width_mul_steps_of_even (p : Primitives) {n : Nat} (h : n % 2 = 0) : p.width * p.steps n = n := by
  have hle := p.le_width_mul_steps n
  have hge := p.width_mul_steps_le n
  omega

/-- The right multiple of the divisor leaves the quotient and the remainder. -/
lemma Trying.dividing (hy : NormalizedDivisor y n ny) {r r' : Uint32List} {t k : Nat} (h : Dividing x y n l j q a r)
    (ht : t + k = j) (htry : Trying y n l j t q a (nextDigit y a t) r') :
    Dividing x y n l t (q * digit_base ^ k + nextDigit y a t) (a % (y * digit_base ^ t)) r' := by
  have hpos : 0 < y * digit_base ^ t := mul_pos hy.pos_divisor (by positivity)
  have hsplit : nextDigit y a t * (y * digit_base ^ t) + a % (y * digit_base ^ t) = a := div_add_mod' ..
  have hpow : digit_base ^ (n + j) = digit_base ^ k * digit_base ^ (n + t) := by
    rw [← pow_add, ← ht]
    congr 1
    omega
  have hcompl : nextDigit y a t * (digit_base ^ n - y) * digit_base ^ t + nextDigit y a t * (y * digit_base ^ t) =
      nextDigit y a t * digit_base ^ (n + t) := by
    rw [Nat.mul_assoc, ← Nat.mul_add, ← Nat.add_mul, Nat.sub_add_cancel hy.lt.le, ← pow_add]
  refine ⟨htry.length, ?_, mod_lt _ hpos, ?_, ?_⟩
  · rw [htry.value_eq, hpow, add_mul, ← mul_assoc q]
    omega
  · rw [h.dividend, ← ht, pow_add, add_mul, add_assoc, hsplit]
    ring
  · have hdig := h.nextDigit_lt hy ht
    refine le_trans ?_ h.room
    rw [hpow, ← mul_assoc]
    refine mul_le_mul_right _ ?_
    rw [add_mul, one_mul]
    omega

/-- One step finds the next digits of the quotient; they are below the base, and the loop that
corrects the estimate ends. -/
lemma division_step_spec (hy : NormalizedDivisor y n ny) {s : Division} (hs : s.Sound y n l)
    (h : Dividing x y n l j q a s.result_digits) (hj : p.width ≤ j) (hdvd : p.width ∣ j) :
    ∃ s', division_step p n l ny s (n + j - 1) j = .ok (s', p.width) ∧ s'.Sound y n l ∧
      s'.result_digits.length = s.result_digits.length ∧ s'.tmp_digits.length = s.tmp_digits.length ∧
      nextDigit y a (j - p.width) < digit_base ^ p.width ∧
      Dividing x y n l (j - p.width) (q * digit_base ^ p.width + nextDigit y a (j - p.width))
        (a % (y * digit_base ^ (j - p.width))) s'.result_digits := by
  generalize ht : j - p.width = t
  have htj : t + p.width = j := by omega
  have hwidth := p.width_pos
  have hlen := h.length
  have hle := h.le
  have hwords := p.width_mul_steps_of_even hy.even
  have hny : ny.segment 0 n = digit_base ^ n - y := by rw [segment_zero_left, hy.complement]
  have hquot := h.nextDigit_lt hy htj
  obtain ⟨args1, hest, hargs1, henough⟩ := estimate_quotient_digit_spec hy hs.args h hj hs.four_le
  rw [ht] at henough
  have hsum : s.result_digits.value l + args1.segment quotient_digit p.width * ny.segment 0 (p.width * p.steps n) *
      digit_base ^ t = q * digit_base ^ (n + j) +
        (a + args1.segment quotient_digit p.width * (digit_base ^ n - y) * digit_base ^ t) := by
    rw [hwords, hny, h.value_eq, add_assoc]
  have hpow : digit_base ^ (n + j) = digit_base ^ p.width * (digit_base ^ n * digit_base ^ t) := by
    rw [← pow_add, ← pow_add, ← htj]
    congr 1
    omega
  have hfits : s.result_digits.value l + args1.segment quotient_digit p.width * ny.segment 0 (p.width * p.steps n) *
      digit_base ^ t < digit_base ^ l := by
    have hlo := complement_lt (by positivity) hy.pos_divisor hy.lt.le henough
    have hword : (args1.segment quotient_digit p.width + 1) * (digit_base ^ n * digit_base ^ t) ≤ _ :=
      mul_le_mul_right _ (args1.segment_lt quotient_digit p.width)
    have hroom := h.room
    rw [add_mul, one_mul] at hroom
    rw [hsum]
    rw [← hpow] at hword
    omega
  obtain ⟨r1, hadd, hlen1, hval1⟩ := mul_add_value_spec p
    (show quotient_digit + p.width ≤ args1.length by
      have := hargs1.length
      have : p.width ≤ 2 := by cases p <;> decide
      rw [quotient_digit]
      omega)
    (by rw [hwords, zero_add]; exact hy.length) (by rw [hwords]; omega)
    (dvd_sub (p.width_dvd hs.even_length) (by rw [← ht]; exact dvd_sub hdvd (dvd_refl _))) hlen hfits
  have htry : Trying y n l j t q a (args1.segment quotient_digit p.width) r1 := ⟨by omega, hval1.trans hsum, henough⟩
  have hbound := args1.segment_lt quotient_digit p.width
  have hneeds := needs_correction_spec hargs1.length (by omega) (htry.word_le hy hle htj hbound)
  rw [show n + t + p.width - 1 = n + j - 1 by omega] at hneeds
  have hrun : ∀ s', (do
      if (← needs_correction p args1 r1 (n + j - 1)) then
        let tmp ← dl_shift_digits (.array ny) n t s.tmp_digits
        let r ← correction_loop p l tmp.1 tmp.2 (n + j - 1) (← p.read args1 quotient_digit) args1 r1
        return (⟨r.1, tmp.1, r.2⟩, p.width)
      else
        return (⟨args1, s.tmp_digits, r1⟩, p.width)) = Except.ok (s', p.width) →
      division_step p n l ny s (n + j - 1) j = .ok (s', p.width) := by
    intro s' hs'
    rw [division_step, hest, ok_bind]
    simp only [ht, hadd, ok_bind, decide_true, check_true]
    exact hs'
  by_cases hbig : nextDigit y a t < args1.segment quotient_digit p.width
  · have hdecide : decide (r1.segment (n + t) p.width < args1.segment quotient_digit p.width) = true :=
      decide_eq_true ((htry.word_lt_iff hy hle htj hbound).mpr hbig)
    have htmpLength := hs.tmp_length
    have htmpEven := hs.tmp_even
    obtain ⟨tmp, hshift, htmp, htmpValue, -⟩ := dl_shift_digits_spec (n := t)
      (show Operand.contents (.array ny) s.tmp_digits = ny from rfl) hy.pos hy.length (by omega)
    rw [hy.complement] at htmpValue
    obtain ⟨args2, r2, hloop, hargs2, hlen2, htry2⟩ := correction_loop_spec hy (by omega) htmpValue hle htj
      (args1.segment quotient_digit p.width) hargs1 htry hbig le_rfl
    refine ⟨⟨args2, tmp, r2⟩, hrun _ ?_, ⟨hargs2, ?_, ?_, ?_, ?_⟩, hlen2.trans hlen1, htmp, hquot,
      htry2.dividing hy h htj⟩
    · have hread : p.read args1 quotient_digit = .ok (args1.segment quotient_digit p.width) := by
        refine read_eq ?_
        have := hargs1.length
        have : p.width ≤ 2 := by cases p <;> decide
        rw [quotient_digit]
        omega
      simp [hneeds, hdecide, hshift, hread, hloop]
    · have := hs.even_length
      simp only
      omega
    · have := hs.four_le
      simp only
      omega
    · simp only
      omega
    · simp only
      omega
  · have hex : nextDigit y a t = args1.segment quotient_digit p.width := by omega
    have hdecide : decide (r1.segment (n + t) p.width < args1.segment quotient_digit p.width) = false :=
      decide_eq_false (mt (htry.word_lt_iff hy hle htj hbound).mp hbig)
    refine ⟨⟨args1, s.tmp_digits, r1⟩, hrun _ ?_, ⟨hargs1, ?_, ?_, hs.tmp_length, hs.tmp_even⟩, hlen1, rfl, hquot,
      (hex ▸ htry).dividing hy h htj⟩
    · simp [hneeds, hdecide]
    · rw [hlen1]
      exact hs.even_length
    · rw [hlen1]
      exact hs.four_le

end dart.bigint
