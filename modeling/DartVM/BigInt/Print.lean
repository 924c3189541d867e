import DartVM.BigInt.DivRem
import DartVM.Lib.Numeral

namespace dart.bigint
open numeral Uint32List Function positional Nat List

/-- The code units of a string. -/
abbrev CodeUnits := List Nat

/-- What the methods for text throw: a `RangeError` for an invalid value, with its limits and the
name of the parameter, or a `FormatException` with its message and source. -/
inductive Thrown where
  | range_error (invalid_value min_value max_value : Nat) (name : Option String)
  | format_exception (message : String) (source : CodeUnits)
  | fault (f : Fault)
deriving DecidableEq

/-- A computation that throws nothing else. -/
def raise {α : Type} (x : Checked α) : Except Thrown α := x.mapError .fault

/-- `_toRadixCodeUnit`. -/
def to_radix_code_unit (digit : Nat) : Nat := if digit < 10 then 48 + digit else 97 + digit - 10

/-- The character `-`. -/
abbrev dash : Nat := 45

/-- `toRadixString` of a machine integer. -/
def int_to_radix_string (value : Int) (radix : Nat) : CodeUnits :=
  (if value < 0 then [dash] else []) ++ (canonical radix value.natAbs).map to_radix_code_unit

/-- `toString` of a machine integer. -/
def int_to_string (value : Int) : CodeUnits := int_to_radix_string value 10

/-- The chunks of zeros that precede a chunk of fewer than 9 digits, in reversed order. -/
def fill_zeros (zeros : Nat) : List CodeUnits :=
  if zeros = 8 then
    [List.replicate 8 48]
  else
    let (four, zeros) := if 4 ≤ zeros then ([List.replicate 4 48], zeros - 4) else ([], zeros)
    let (two, zeros) := if 2 ≤ zeros then ([List.replicate 2 48], zeros - 2) else ([], zeros)
    four ++ two ++ if 1 ≤ zeros then [[48]] else []

namespace BigIntImpl

/-- `_BigIntImpl._oneBillion`. -/
def one_billion : BigIntImpl := ⟨false, [1000000000, 0], 1⟩

/-- `_BigIntImpl._fromInt`. -/
def from_int (value : Int) : Checked BigIntImpl := do
  let is_negative : Bool := value < 0
  let digits := new_digits 2
  if value = -2 ^ 63 then
    -- The negation of the minimal value is not positive.
    make true 2 (← digits.write 1 0x80000000)
  else
    let value := value.natAbs
    if value < digit_base then
      make is_negative 1 (← digits.write 0 value)
    else
      let digits ← digits.write 0 (value &&& digit_mask : Nat)
      make is_negative 2 (← digits.write 1 (value >>> digit_bits : Nat))

/-- `toInt`, which clamps a number that does not fit. -/
def to_int (x : BigIntImpl) : Checked Int := do
  if x.used = 0 then return 0
  if x.used = 1 then
    let digit ← x.digits.read 0
    return signed x.is_negative digit
  if x.used = 2 then
    let high ← x.digits.read 1
    if high < 0x80000000 then
      let low ← x.digits.read 0
      return signed x.is_negative ((high <<< digit_bits) ||| low)
  return if x.is_negative then -2 ^ 63 else 2 ^ 63 - 1

/-- The loop of `toString`: the chunks are in reversed order. -/
def decimal_chunks (p : Primitives) (to_string : BigIntImpl → Checked CodeUnits) :
    Nat → BigIntImpl → List CodeUnits → Checked (BigIntImpl × List CodeUnits)
  | 0, _, _ => .error .out_of_fuel
  | fuel + 1, rest, decimal_digit_chunks =>
    if 1 < rest.used then do
      let digits9 ← to_string (← rest.remainder p one_billion)
      let decimal_digit_chunks := decimal_digit_chunks ++ digits9 :: fill_zeros (9 - digits9.length)
      decimal_chunks p to_string fuel (← rest.truncating_div p one_billion) decimal_digit_chunks
    else
      .ok (rest, decimal_digit_chunks)

/-- The body of `toString`, which calls itself on chunks of 9 digits. -/
def to_string_body (p : Primitives) (to_string : BigIntImpl → Checked CodeUnits) (x : BigIntImpl) : Checked CodeUnits :=
  if x.used = 0 then
    .ok [48]
  else if x.used = 1 then do
    let digit ← x.digits.read 0
    return if x.is_negative then int_to_string (-(digit : Int)) else int_to_string digit
  else do
    let rest ← abs x
    let (rest, decimal_digit_chunks) ← decimal_chunks p to_string (digit_bits * x.used + 1) rest []
    let decimal_digit_chunks := decimal_digit_chunks ++ [int_to_string (← rest.digits.read 0 : Nat)]
    let decimal_digit_chunks := if x.is_negative then decimal_digit_chunks ++ [[dash]] else decimal_digit_chunks
    return decimal_digit_chunks.reverse.flatten

/-- `toString`. The calls are nested at most once. -/
def to_string (p : Primitives) (x : BigIntImpl) : Checked CodeUnits :=
  to_string_body p (to_string_body p fun _ => .error .out_of_fuel) x

/-- The hexadecimal characters of a digit, in reversed order. -/
def hex_chunk (chunk : Nat) : List Nat :=
  (List.range (digit_bits / 4)).map fun j => to_radix_code_unit (chunk >>> (4 * j) &&& 0xF)

/-- The hexadecimal characters of the most significant digit, in reversed order. -/
def msb_chunk (chunk : Nat) : List Nat :=
  if chunk = 0 then [] else to_radix_code_unit (chunk &&& 0xF) :: msb_chunk (chunk >>> 4)
decreasing_by
  rw [Nat.shiftRight_eq_div_pow]
  omega

/-- The hexadecimal characters of the first `n` digits, in reversed order. -/
def hex_chunks (digits : Uint32List) (n : Nat) : Checked (List Nat) :=
  (List.range n).foldlM (fun chars i => do return chars ++ hex_chunk (← digits.read i)) []

/-- `_toHexString`. -/
def to_hex_string (x : BigIntImpl) : Checked CodeUnits := do
  let chars ← hex_chunks x.digits (x.used - 1)
  let chars := chars ++ msb_chunk (← x.digits.read (x.used - 1))
  let chars := if x.is_negative then chars ++ [dash] else chars
  return chars.reverse

/-- The loop of `toRadixString`: the characters are in reversed order. -/
def radix_digits (p : Primitives) (base : BigIntImpl) : Nat → BigIntImpl → List Nat → Checked (List Nat)
  | 0, _, _ => .error .out_of_fuel
  | fuel + 1, rest, reversed_digit_code_units =>
    if rest.is_zero then
      .ok reversed_digit_code_units
    else do
      let digit ← to_int (← rest.remainder p base)
      let rest ← rest.truncating_div p base
      radix_digits p base fuel rest (reversed_digit_code_units ++ [to_radix_code_unit digit.toNat])

/-- `toRadixString`. -/
def to_radix_string (p : Primitives) (x : BigIntImpl) (radix : Nat) : Except Thrown CodeUnits :=
  if radix < 2 ∨ 36 < radix then
    .error (.range_error radix 2 36 none)
  else raise <|
    if x.used = 0 then
      .ok [48]
    else if x.used = 1 then do
      let digit_string := int_to_radix_string (← x.digits.read 0 : Nat) radix
      return if x.is_negative then dash :: digit_string else digit_string
    else if radix = 16 then
      to_hex_string x
    else do
      let base ← from_int radix
      let reversed_digit_code_units ← radix_digits p base (digit_bits * x.used + 1) (← abs x) []
      let digit_string := reversed_digit_code_units.reverse
      return if x.is_negative then dash :: digit_string else digit_string

section
variable {x y : BigIntImpl}

lemma signed_natAbs (v : Int) : signed (decide (v < 0)) v.natAbs = v := by
  rw [signed]
  split
  · rename_i h
    have := of_decide_eq_true h
    omega
  · rename_i h
    have := mt decide_eq_true h
    omega

/-- The number that has the given two digits. -/
lemma make_pair_spec (s : Bool) {low high : Nat} (hlo : low < digit_base) (hhi : high < digit_base) :
    ∃ digits1 digits2 x, (new_digits 2).write 0 low = .ok digits1 ∧ digits1.write 1 high = .ok digits2 ∧
      make s 2 digits2 = .ok x ∧ x.Valid ∧ x.value = signed s (low + high * digit_base) := by
  obtain ⟨digits1, hwr1, hlen1, hdig1⟩ := write_eq (show 0 < (new_digits 2).length by decide) hlo
  have hlen : (new_digits 2).length = 2 := rfl
  obtain ⟨digits2, hwr2, hlen2, hdig2⟩ := write_eq (show 1 < digits1.length by omega) hhi
  obtain ⟨x, hx, hok, hval, -⟩ := make_spec s 2 digits2 (by omega) (by omega) (by omega)
  refine ⟨digits1, digits2, x, hwr1, hwr2, hx, hok, ?_⟩
  rw [hval, ← segment_zero_left, segment_two, hdig2, hdig1, update_self, update_of_ne (by decide), update_self]

lemma from_int_spec {v : Int} (hlo : -2 ^ 63 ≤ v) (hhi : v < 2 ^ 63) :
    ∃ x, from_int v = .ok x ∧ x.Valid ∧ x.value = v := by
  by_cases hmin : v = -2 ^ 63
  · rw [hmin]
    exact ⟨⟨true, [0, 0x80000000], 2⟩, rfl, ⟨⟨by decide, by decide, by decide⟩, by decide, by decide⟩, by decide⟩
  by_cases hsmall : v.natAbs < digit_base
  · have hlength : (new_digits 2).length = 2 := rfl
    obtain ⟨digits, hwr, hlen, hdig⟩ := write_eq (show 0 < (new_digits 2).length by decide) hsmall
    obtain ⟨x, hx, hok, hval, -⟩ := make_spec (decide (v < 0)) 1 digits (by omega) (by omega) (fun _ => by
      rw [hdig, update_of_ne (by decide), digit_new_digits])
    refine ⟨x, ?_, hok, ?_⟩
    · simp only [from_int, if_neg hmin, if_pos hsmall, hwr, ok_bind, hx]
    · rw [hval, Uint32List.value, positional.value_one, hdig, Function.update_self, signed_natAbs]
  have hlt : v.natAbs < digit_base * digit_base := by
    simp only [digit_base]
    omega
  obtain ⟨digits1, digits2, x, hwr1, hwr2, hx, hok, hval⟩ := make_pair_spec (decide (v < 0))
    (show v.natAbs % digit_base < digit_base from mod_lt _ (by norm_num))
    (show v.natAbs / digit_base < digit_base from Nat.div_lt_of_lt_mul hlt)
  refine ⟨x, ?_, hok, ?_⟩
  · simp only [from_int, if_neg hmin, if_neg hsmall, digit_mask, and_two_pow_sub_one_eq_mod,
      shiftRight_eq_div_pow, hwr1, hwr2, ok_bind, hx]
  · rw [hval, mul_comm, mod_add_div, signed_natAbs]

lemma to_int_spec (hx : x.Valid) (h : x.magnitude < 2 ^ 63) : to_int x = .ok x.value := by
  have hused := hx.used_le
  have hle : x.used ≤ 2 := hx.used_le_of_lt (h.trans (by norm_num))
  rw [value, magnitude]
  obtain h0 | hone | htwo : x.used = 0 ∨ x.used = 1 ∨ x.used = 2 := by omega
  · simp only [to_int, h0, pure_eq_ok, if_true]
    rw [Uint32List.value, positional.value_zero, signed_zero]
  · simp only [to_int, hone, read_eq (show 0 < x.digits.length by omega), ok_bind, pure_eq_ok]
    rw [if_neg (by decide), if_pos trivial, Uint32List.value, positional.value_one]
  · have hval : x.digits.value 2 = x.digits.digit 0 + x.digits.digit 1 * digit_base := by
      rw [← segment_zero_left, segment_two]
    have hhi : x.digits.digit 1 < 0x80000000 := by
      rw [magnitude, htwo, hval] at h
      simp only [digit_base] at h
      omega
    have hor : x.digits.digit 1 <<< 32 ||| x.digits.digit 0 = x.digits.digit 0 + x.digits.digit 1 * digit_base := by
      rw [← shiftLeft_add_eq_or_of_lt (x.digits.digit_lt 0), shiftLeft_eq, add_comm]
    simp only [to_int, htwo, read_eq (show 0 < x.digits.length by omega),
      read_eq (show 1 < x.digits.length by omega), ok_bind, pure_eq_ok]
    rw [if_neg (by decide), if_neg (by decide), if_pos trivial, if_pos hhi, hor, hval]

lemma magnitude_eq {n : Nat} (h : x.value = n) : x.magnitude = n := by
  rw [← natAbs_value, h, Int.natAbs_natCast]

/-- The division of numbers that are not negative. -/
lemma div_rem_nat_spec (p : Primitives) (hx : x.Valid) (hy : y.Valid) {m n : Nat} (hm : x.value = m)
    (hn : y.value = n) (hpos : 0 < n) : ∃ q r, truncating_div p x y = .ok q ∧ remainder p x y = .ok r ∧ q.Valid ∧
    r.Valid ∧ q.value = (m / n : Nat) ∧ r.value = (m % n : Nat) := by
  have hne : y.value ≠ 0 := by omega
  obtain ⟨q, hq, hqok, hqval⟩ := truncating_div_spec p hx hy hne
  obtain ⟨r, hr, hrok, hrval⟩ := remainder_spec p hx hy hne
  refine ⟨q, r, hq, hr, hqok, hrok, ?_, ?_⟩
  · rw [hqval, hm, hn]
    exact signed_tdiv false false m n
  · rw [hrval, hm, hn]
    exact signed_tmod false false m n

lemma valid_one_billion : one_billion.Valid := ⟨⟨by decide, by decide, by decide⟩, by decide, by decide⟩

lemma value_one_billion : one_billion.value = (10 ^ 9 : Nat) := by decide

end

lemma int_to_radix_string_natCast (n radix : Nat) :
    int_to_radix_string n radix = (canonical radix n).map to_radix_code_unit := by
  rw [int_to_radix_string, if_neg (by omega), nil_append, Int.natAbs_natCast]

/-- The sign precedes the numeral of the magnitude. -/
lemma int_to_radix_string_value {x : BigIntImpl} (hx : x.Valid) (radix : Nat) : int_to_radix_string x.value radix =
      if x.is_negative then dash :: int_to_radix_string x.magnitude radix else int_to_radix_string x.magnitude radix := by
  rw [int_to_radix_string_natCast, int_to_radix_string, natAbs_value]
  by_cases hneg : x.is_negative = true
  · rw [if_pos hneg, if_pos (hx.is_negative_iff.mp hneg)]
    rfl
  · rw [if_neg hneg, if_neg (mt hx.is_negative_iff.mpr hneg), nil_append]

/-- Nine more digits of a decimal numeral. -/
lemma int_to_string_append {n : Nat} (h : 0 < n / 10 ^ 9) : int_to_string n = int_to_string (n / 10 ^ 9 : Nat) ++
      (replicate (9 - (int_to_string (n % 10 ^ 9 : Nat)).length) 48 ++ int_to_string (n % 10 ^ 9 : Nat)) := by
  simp only [int_to_string, int_to_radix_string_natCast, length_map]
  rw [canonical_eq_canonical_append (by norm_num) (by norm_num) h, map_append, map_append, map_replicate]
  rfl

lemma flatten_fill_zeros {zeros : Nat} (h : zeros ≤ 8) : (fill_zeros zeros).reverse.flatten = replicate zeros 48 := by
  interval_cases zeros <;> rfl

section
variable {p : Primitives} {to_string : BigIntImpl → Checked CodeUnits} {x rest : BigIntImpl}

/-- A number of at most one digit is printed like a machine integer. -/
lemma to_string_body_short (hx : x.Valid) (hused : x.used ≤ 1) :
    to_string_body p to_string x = .ok (int_to_string x.value) := by
  rw [to_string_body]
  by_cases h0 : x.used = 0
  · rw [if_pos h0, hx.value_eq_zero h0]
    rfl
  have hone : x.used = 1 := by omega
  have hval : x.value = signed x.is_negative (x.digits.digit 0) := by
    rw [value, magnitude, hone, Uint32List.value, positional.value_one]
  have hused := hx.used_le
  rw [if_neg h0, if_pos hone, read_eq (by omega), ok_bind, hval, signed]
  split <;> rfl

/-- Each step of the loop moves nine digits of the numeral to the chunks. -/
lemma decimal_chunks_spec
    (hto : ∀ z : BigIntImpl, z.Valid → z.used ≤ 1 → to_string z = .ok (int_to_string z.value)) (fuel : Nat)
    (hrest : rest.Valid) (hsign : 0 < rest.value) (hfuel : rest.magnitude < 2 ^ fuel) (chunks : List CodeUnits) :
    ∃ rest' chunks', decimal_chunks p to_string (fuel + 1) rest chunks = .ok (rest', chunks') ∧ rest'.Valid ∧
      rest'.used = 1 ∧ int_to_string (rest'.digits.digit 0) ++ chunks'.reverse.flatten =
        int_to_string rest.value ++ chunks.reverse.flatten := by
  induction fuel generalizing rest chunks with
  | zero =>
    have hpos := natAbs_value rest
    exact absurd hfuel (by omega)
  | succ fuel ih =>
    have hnat : rest.value = rest.magnitude := by
      have := natAbs_value rest
      omega
    by_cases hused : 1 < rest.used
    · have hbig : digit_base ^ (rest.used - 1) ≤ rest.magnitude := pow_le_value (by omega) (hrest.top_digit (by omega))
      have hbase : digit_base ^ 1 ≤ digit_base ^ (rest.used - 1) := Nat.pow_le_pow_right (by norm_num) (by omega)
      have hquot : 0 < rest.magnitude / 10 ^ 9 := div_pos (by simp only [digit_base] at *; omega) (by norm_num)
      obtain ⟨q, r, hq, hr, hqok, hrok, hqval, hrval⟩ :=
        div_rem_nat_spec p hrest valid_one_billion hnat value_one_billion (by norm_num)
      have hshort : r.used ≤ 1 := hrok.used_le_of_lt (by
        rw [magnitude_eq hrval]
        exact (mod_lt _ (by norm_num)).trans (by norm_num))
      generalize hdigs : int_to_string r.value = digits9
      have hfill : 0 < digits9.length := by
        rw [← hdigs, hrval, int_to_string, int_to_radix_string_natCast, length_map]
        exact length_pos_of_ne_nil canonical_ne_nil
      obtain ⟨rest', chunks', hrun, hok, hone, htext⟩ := ih hqok (by omega)
        (by rw [magnitude_eq hqval]; exact Nat.div_lt_of_lt_mul (by rw [pow_succ] at hfuel; omega))
        (chunks ++ digits9 :: fill_zeros (9 - digits9.length))
      refine ⟨rest', chunks', ?_, hok, hone, ?_⟩
      · rw [decimal_chunks, if_pos hused, hr, ok_bind, hto r hrok hshort, ok_bind, hdigs, hq, ok_bind, hrun]
      · rw [htext, reverse_append, flatten_append, reverse_cons, flatten_append, flatten_fill_zeros (by omega),
          flatten_singleton, hqval, hnat, int_to_string_append hquot, ← hrval, hdigs]
        simp
    · have hone : rest.used = 1 := by
        by_contra hne
        exact absurd (hrest.value_eq_zero (by omega)) (by omega)
      refine ⟨rest, chunks, ?_, hrest, hone, ?_⟩
      · rw [decimal_chunks, if_neg hused]
      · rw [hnat, magnitude, hone, Uint32List.value, positional.value_one]

lemma to_string_spec (p : Primitives) (hx : x.Valid) : x.to_string p = .ok (int_to_string x.value) := by
  by_cases hshort : x.used ≤ 1
  · exact to_string_body_short hx hshort
  obtain ⟨y, hy, hyok, hyval⟩ := abs_spec hx
  have hmag := magnitude_eq hyval
  have hpos : 0 < y.value := by
    have hne := mt hx.magnitude_eq_zero_iff.mp (by omega)
    omega
  have hfuel : y.magnitude < 2 ^ (digit_bits * x.used) := by
    rw [hmag, pow_mul]
    exact x.digits.value_lt x.used
  obtain ⟨rest, chunks, hrun, hrest, hone, htext⟩ :=
    decimal_chunks_spec (fun z hz hused => to_string_body_short hz hused) _ hyok hpos hfuel []
  have hread := hrest.used_le
  rw [reverse_nil, flatten_nil, append_nil, hyval] at htext
  rw [to_string, to_string_body, if_neg (by omega), if_neg (by omega), hy, ok_bind, hrun, ok_bind]
  dsimp only
  have hval : int_to_string x.value =
      if x.is_negative then dash :: int_to_string x.magnitude else int_to_string x.magnitude :=
    int_to_radix_string_value hx 10
  rw [read_eq (by omega), ok_bind, pure_eq_ok, hval, ← htext]
  split
  · rw [reverse_append, reverse_append]
    rfl
  · rw [reverse_append]
    rfl

end

variable {x : BigIntImpl} {radix : Nat}

lemma hex_chunk_eq (chunk : Nat) : hex_chunk chunk = (lowDigits 16 8 chunk).map to_radix_code_unit := by
  rw [lowDigits_eq_map, map_map]
  refine map_congr_left fun j _ => ?_
  rw [shiftRight_eq_div_pow, pow_mul, show 0xF = 2 ^ 4 - 1 from rfl, and_two_pow_sub_one_eq_mod]
  rfl

lemma msb_chunk_eq (chunk : Nat) : msb_chunk chunk = (Nat.digits 16 chunk).map to_radix_code_unit := by
  induction chunk using Nat.strongRecOn with
  | ind chunk ih =>
    rw [msb_chunk]
    by_cases h0 : chunk = 0
    · rw [if_pos h0, h0, digits_zero, map_nil]
    have hpos := pos_of_ne_zero h0
    rw [if_neg h0, shiftRight_eq_div_pow, ih _ (div_lt_self hpos (by norm_num)),
      digits_def' (by norm_num) hpos, map_cons, show 0xF = 2 ^ 4 - 1 from rfl, and_two_pow_sub_one_eq_mod]

/-- The digits are converted one after the other. -/
lemma hex_chunks_spec {digits : Uint32List} {n m : Nat} (hn : n ≤ digits.length) (hm : n ≤ m) :
    hex_chunks digits n = .ok ((lowDigits 16 (8 * n) (digits.value m)).map to_radix_code_unit) := by
  obtain ⟨chars, hrun, hchars⟩ := loops.foldlM_range_spec
    (fun (chars : List Nat) i => do return chars ++ hex_chunk (← digits.read i))
    (fun i chars => chars = (lowDigits 16 (8 * i) (digits.value m)).map to_radix_code_unit) n (fun i chars hi hchars => by
      refine ⟨_, by rw [read_eq (by omega), ok_bind, pure_eq_ok], ?_⟩
      have hdig : digits.value m / digit_base ^ i % digit_base = digits.digit i := digit_eq digits.digit_lt (by omega)
      have hmod : lowDigits 16 8 (digits.digit i) = lowDigits 16 8 (digits.value m / 16 ^ (8 * i)) := by
        rw [← hdig, pow_mul]
        exact lowDigits_mod
      rw [hchars, hex_chunk_eq, hmod, mul_succ, lowDigits_add, map_append]) [] rfl
  rw [hex_chunks, hrun, hchars]

lemma to_hex_string_spec (hx : x.Valid) (hused : 0 < x.used) :
    to_hex_string x = .ok (int_to_radix_string x.value 16) := by
  have hlen := hx.used_le
  have hloop := hex_chunks_spec (show x.used - 1 ≤ x.digits.length by omega) (show x.used - 1 ≤ x.used by omega)
  have htop : x.digits.digit (x.used - 1) = x.magnitude / 16 ^ (8 * (x.used - 1)) := by
    have hsplit : x.digits.value x.used / digit_base ^ (x.used - 1) = _ := value_div_pow x.digits.digit_lt (by omega)
    rw [show x.used - (x.used - 1) = 1 by omega, value_one, add_zero] at hsplit
    rw [← hsplit, magnitude, pow_mul]
    rfl
  rw [← magnitude] at hloop
  have hne : 0 < x.magnitude / 16 ^ (8 * (x.used - 1)) := by
    rw [← htop]
    exact pos_of_ne_zero (hx.top_digit hused.ne')
  have hnonzero : x.magnitude ≠ 0 := mt hx.magnitude_eq_zero_iff.mp hused.ne'
  have hdigs : (lowDigits 16 (8 * (x.used - 1)) x.magnitude).map to_radix_code_unit ++
      msb_chunk (x.digits.digit (x.used - 1)) = (Nat.digits 16 x.magnitude).map to_radix_code_unit := by
    rw [msb_chunk_eq, htop, ← map_append, ← digits_eq_lowDigits_append (by norm_num) hne]
  rw [int_to_radix_string_value hx, int_to_radix_string_natCast, canonical, if_neg hnonzero, map_reverse]
  simp only [to_hex_string, hloop, ok_bind, read_eq (show x.used - 1 < x.digits.length by omega), hdigs, pure_eq_ok]
  split
  · rw [reverse_append]
    rfl
  · rfl

/-- Each step of the loop moves one digit of the numeral. -/
lemma radix_digits_spec (p : Primitives) {base rest : BigIntImpl} (hbase : base.Valid)
    (hval : base.value = radix) (hradix : 1 < radix) (hsmall : radix ≤ 36) (fuel : Nat) (hrest : rest.Valid)
    (hsign : 0 ≤ rest.value) (hfuel : rest.magnitude < 2 ^ fuel) (units : List Nat) :
    radix_digits p base (fuel + 1) rest units =
      .ok (units ++ (Nat.digits radix rest.magnitude).map to_radix_code_unit) := by
  induction fuel generalizing rest units with
  | zero =>
    have h0 : rest.magnitude = 0 := by omega
    rw [radix_digits, if_pos (is_zero_iff.mpr (hrest.magnitude_eq_zero_iff.mp h0)), h0, Nat.digits_zero,
      List.map_nil, List.append_nil]
  | succ fuel ih =>
    by_cases h0 : rest.magnitude = 0
    · rw [radix_digits, if_pos (is_zero_iff.mpr (hrest.magnitude_eq_zero_iff.mp h0)), h0, Nat.digits_zero,
        List.map_nil, List.append_nil]
    have hnat : rest.value = rest.magnitude := by
      have := natAbs_value rest
      omega
    obtain ⟨q, r, hq, hr, hqok, hrok, hqval, hrval⟩ := div_rem_nat_spec p hrest hbase hnat hval (by omega)
    have hlt : rest.magnitude % radix < radix := Nat.mod_lt _ (by omega)
    have hint : to_int r = .ok (rest.magnitude % radix : Nat) := by
      rw [to_int_spec hrok (by rw [magnitude_eq hrval]; omega), hrval]
    have hnext : q.magnitude < 2 ^ fuel := by
      rw [magnitude_eq hqval]
      refine Nat.div_lt_of_lt_mul (hfuel.trans_le ?_)
      rw [pow_succ']
      exact Nat.mul_le_mul_right _ hradix
    rw [radix_digits, if_neg (fun h => h0 (hrest.magnitude_eq_zero_iff.mpr (is_zero_iff.mp h))), hr, ok_bind, hint,
      ok_bind, hq, ok_bind, ih hqok (by rw [hqval]; exact Int.natCast_nonneg _) hnext, magnitude_eq hqval,
      Nat.digits_def' hradix (Nat.pos_of_ne_zero h0), List.map_cons, List.append_assoc, Int.toNat_natCast]
    rfl

/-- A number is printed as its canonical numeral in every radix. -/
lemma to_radix_string_spec (p : Primitives) (hx : x.Valid) (hlo : 2 ≤ radix) (hhi : radix ≤ 36) :
    x.to_radix_string p radix = .ok (int_to_radix_string x.value radix) := by
  rw [to_radix_string, if_neg (by omega)]
  by_cases h0 : x.used = 0
  · rw [if_pos h0, hx.value_eq_zero h0]
    rfl
  by_cases hone : x.used = 1
  · have hlen := hx.used_le
    have hmag : x.magnitude = x.digits.digit 0 := by
      rw [magnitude, hone, Uint32List.value, positional.value_one]
    rw [if_neg h0, if_pos hone, read_eq (by omega), ok_bind, pure_eq_ok, int_to_radix_string_value hx, hmag]
    rfl
  by_cases hhex : radix = 16
  · rw [if_neg h0, if_neg hone, if_pos hhex, to_hex_string_spec hx (by omega), hhex]
    rfl
  obtain ⟨base, hbase, hbaseValid, hbaseValue⟩ := from_int_spec (v := (radix : Int)) (by omega) (by omega)
  obtain ⟨y, hy, hyok, hyval⟩ := abs_spec hx
  have hmag := magnitude_eq hyval
  have hfuel : y.magnitude < 2 ^ (digit_bits * x.used) := by
    rw [hmag, pow_mul]
    exact x.digits.value_lt x.used
  have hrun := radix_digits_spec p hbaseValid hbaseValue (by omega) hhi _ hyok (by omega) hfuel []
  have hne : x.magnitude ≠ 0 := mt hx.magnitude_eq_zero_iff.mp h0
  rw [if_neg h0, if_neg hone, if_neg hhex, hbase, ok_bind, hy, ok_bind, hrun, ok_bind, pure_eq_ok, hmag,
    nil_append, int_to_radix_string_value hx, int_to_radix_string_natCast, canonical, if_neg hne, map_reverse]
  rfl

end BigIntImpl
end dart.bigint
