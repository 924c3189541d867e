import DartVM.BigInt.Magnitude

namespace dart.bigint
open loops Nat Uint32List Function positional

/-- How `_mulAdd`, `_sqrAdd`, `_mulMod` and `_estimateQuotientDigit` are compiled: the
methods themselves, which process one digit, or the 64-bit intrinsics that the VM puts in
their place, which process a pair of digits. -/
inductive Primitives where
  | pure_dart
  | intrinsics
deriving DecidableEq

namespace Primitives

/-- The number of digits that are processed at once. -/
def width : Primitives → Nat
  | pure_dart => 1
  | intrinsics => 2

/-- The number of steps in which `n` digits are processed. -/
def steps : Primitives → Nat → Nat
  | pure_dart, n => n
  | intrinsics, n => (n + 1) / 2

/-- A digit or, the less significant one first, a pair of digits. -/
def read (p : Primitives) (digits : Uint32List) (i : Nat) : Checked Nat :=
  match p with
  | pure_dart => digits.read i
  | intrinsics => do
    let low ← digits.read i
    let high ← digits.read (i + 1)
    return low + high <<< digit_bits

/-- The methods compute with 64-bit integers, the intrinsics with two registers. -/
def fit (p : Primitives) (value : Nat) : Checked Nat :=
  match p with
  | pure_dart => bigint.fit value
  | intrinsics => .ok value

/-- What is stored of a sum. -/
def low (p : Primitives) (value : Nat) : Nat :=
  match p with
  | pure_dart => value &&& digit_mask
  | intrinsics => value &&& (2 ^ 64 - 1)

/-- What is carried on of a sum. -/
def high (p : Primitives) (value : Nat) : Nat :=
  match p with
  | pure_dart => value >>> digit_bits
  | intrinsics => value >>> 64

def write (p : Primitives) (digits : Uint32List) (i value : Nat) : Checked Uint32List :=
  match p with
  | pure_dart => digits.write i value
  | intrinsics => do
    let digits ← digits.write i (value &&& digit_mask : Nat)
    digits.write (i + 1) (value >>> digit_bits : Nat)

end Primitives

/-- The product of a number given by its half digits with a digit, to which a digit of the
accumulator and the carry are added: the digit to store and the carry. -/
def half_digit_product (xl xh multiplicand_digit accumulator_digit carry : Nat) : Checked (Nat × Nat) := do
  let ml := multiplicand_digit &&& half_digit_mask
  let mh := multiplicand_digit >>> half_digit_bits
  let ph ← fit (xh * ml + mh * xl)
  let pl ← fit (xl * ml + ((ph &&& half_digit_mask) <<< half_digit_bits) + accumulator_digit + carry)
  let carry ← fit ((pl >>> digit_bits) + (ph >>> half_digit_bits) + xh * mh)
  return (pl &&& digit_mask, carry)

/-- The loop of `_mulAdd` over the digits of the multiplicand. -/
def mul_add_step (x : Nat) (multiplicand_digits : Uint32List) (i j : Nat) (state : Uint32List × Nat) (k : Nat) :
    Checked (Uint32List × Nat) := do
  let multiplicand_digit ← multiplicand_digits.read (i + k)
  let accumulator_digit ← state.1.read (j + k)
  let (digit, carry) ← half_digit_product (x &&& half_digit_mask) (x >>> half_digit_bits) multiplicand_digit
    accumulator_digit state.2
  let accumulator_digits ← state.1.write (j + k) (digit : Nat)
  return (accumulator_digits, carry)

/-- The loop of the intrinsic, whose product of two pairs of digits has 128 bits. -/
def mul_add_pair_step (x : Nat) (multiplicand_digits : Uint32List) (i j : Nat) (state : Uint32List × Nat) (k : Nat) :
    Checked (Uint32List × Nat) := do
  let mi ← Primitives.intrinsics.read multiplicand_digits (i + 2 * k)
  let aj ← Primitives.intrinsics.read state.1 (j + 2 * k)
  let t := x * mi + aj + state.2
  let accumulator_digits ← Primitives.intrinsics.write state.1 (j + 2 * k) (Primitives.intrinsics.low t)
  return (accumulator_digits, Primitives.intrinsics.high t)

/-- The loop over the multiplicand. -/
def mul_add_loop (p : Primitives) (x : Nat) (multiplicand_digits : Uint32List) (i j : Nat) : Uint32List × Nat → Nat →
    Checked (Uint32List × Nat) :=
  match p with
  | .pure_dart => mul_add_step x multiplicand_digits i j
  | .intrinsics => mul_add_pair_step x multiplicand_digits i j

/-- The loop `while (carry != 0)`, which ends with the array at the latest. -/
def propagate_carry (p : Primitives) : Nat → Uint32List → Nat → Nat → Checked Uint32List
  | 0, accumulator_digits, _, carry =>
    if carry = 0 then .ok accumulator_digits else .error .out_of_bounds
  | fuel + 1, accumulator_digits, j, carry =>
    if carry = 0 then .ok accumulator_digits else do
      let l ← p.fit ((← p.read accumulator_digits j) + carry)
      let accumulator_digits ← p.write accumulator_digits j (p.low l)
      propagate_carry p fuel accumulator_digits (j + p.width) (p.high l)

/-- `accumulatorDigits[j..j+n] += xDigits[xIndex] * multiplicandDigits[i..i+n-1]`, and
the number of digits of `xDigits` that are processed. -/
def mul_add (p : Primitives) (x_digits : Uint32List) (x_index : Nat) (multiplicand_digits : Uint32List) (i : Nat)
    (accumulator_digits : Uint32List) (j n : Nat) : Checked (Uint32List × Nat) := do
  let x ← p.read x_digits x_index
  if x = 0 then return (accumulator_digits, p.width)
  let (accumulator_digits, carry) ← (List.range (p.steps n)).foldlM (mul_add_loop p x multiplicand_digits i j)
    (accumulator_digits, 0)
  let accumulator_digits ← propagate_carry p (accumulator_digits.length - j) accumulator_digits
    (j + p.width * p.steps n) carry
  return (accumulator_digits, p.width)

namespace Primitives
variable (p : Primitives) {n : Nat}

lemma width_pos : 0 < p.width := by cases p <;> decide

lemma le_width_mul_steps (n : Nat) : n ≤ p.width * p.steps n := by
  cases p with
  | pure_dart => simp [width, steps]
  | intrinsics =>
    rw [width, steps]
    omega

lemma width_mul_steps_le (n : Nat) : p.width * p.steps n ≤ n + n % 2 := by
  cases p with
  | pure_dart => simp [width, steps]
  | intrinsics =>
    rw [width, steps]
    omega

lemma width_dvd (h : n % 2 = 0) : p.width ∣ n := by
  cases p with
  | pure_dart => exact one_dvd n
  | intrinsics => exact dvd_of_mod_eq_zero h

variable (v : Nat)

lemma low_eq : p.low v = v % digit_base ^ p.width := by
  cases p with
  | pure_dart => exact and_two_pow_sub_one_eq_mod v 32
  | intrinsics => exact and_two_pow_sub_one_eq_mod v 64

lemma high_eq : p.high v = v / digit_base ^ p.width := by
  cases p with
  | pure_dart => exact shiftRight_eq_div_pow v 32
  | intrinsics => exact shiftRight_eq_div_pow v 64

lemma low_lt : p.low v < digit_base ^ p.width := by
  rw [low_eq]
  exact mod_lt _ (by positivity)

lemma low_add_high : p.low v + p.high v * digit_base ^ p.width = v := by
  rw [low_eq, high_eq, mul_comm]
  exact mod_add_div ..

variable {p} {digits : Uint32List} {i v : Nat}

section
variable (h : i + p.width ≤ digits.length)
include h

lemma read_eq : p.read digits i = .ok (digits.segment i p.width) := by
  cases p with
  | pure_dart =>
    rw [width] at h
    rw [width, segment_one]
    exact read_eq (by omega)
  | intrinsics =>
    rw [width] at h
    rw [read, read_eq (by omega), ok_bind, read_eq (by omega), ok_bind, pure_eq_ok, width,
      segment_succ, segment_one, pow_one, shiftLeft_eq]

lemma write_segment (hv : v < digit_base ^ p.width) :
    ∃ digits', p.write digits i v = .ok digits' ∧ digits'.length = digits.length ∧ digits'.segment i p.width = v ∧
      ∀ k, k < i ∨ i + p.width ≤ k → digits'.digit k = digits.digit k := by
  cases p with
  | pure_dart =>
    rw [width] at h ⊢
    obtain ⟨digits', hwr, hlen, hdig⟩ := write_eq (show i < digits.length by omega) hv
    refine ⟨digits', hwr, hlen, ?_, fun k hk => ?_⟩
    · rw [segment_one, hdig, update_self]
    · rw [hdig, update_of_ne (by omega)]
  | intrinsics =>
    rw [width] at h hv ⊢
    have hlo : v &&& digit_mask = v % digit_base := and_two_pow_sub_one_eq_mod v 32
    have hhi : v >>> digit_bits = v / digit_base := shiftRight_eq_div_pow v 32
    obtain ⟨digits1, hwr1, hlen1, hdig1⟩ := write_eq (show i < digits.length by omega) (mod_lt v (by positivity))
    obtain ⟨digits2, hwr2, hlen2, hdig2⟩ := write_eq (show i + 1 < digits1.length by omega)
      (Nat.div_lt_of_lt_mul (by rwa [pow_two] at hv) : v / digit_base < digit_base)
    refine ⟨digits2, by rw [write, hlo, hhi, hwr1, ok_bind, hwr2], hlen2.trans hlen1, ?_, fun k hk => ?_⟩
    · rw [segment_succ, segment_one, hdig2, update_self, update_of_ne (by omega), hdig1, update_self, pow_one]
      exact mod_add_div' v digit_base
    · rw [hdig2, update_of_ne (by omega), hdig1, update_of_ne (by omega)]

/-- Storing a word changes the number by the difference at its place. -/
lemma write_total (hv : v < digit_base ^ p.width) : ∃ digits', p.write digits i v = .ok digits' ∧ digits'.length =
    digits.length ∧ digits'.total + digits.segment i p.width * digit_base ^ i = digits.total + v * digit_base ^ i ∧ ∀ k,
    k < i ∨ i + p.width ≤ k → digits'.digit k = digits.digit k := by
  obtain ⟨digits', hwr, hlen, hseg, hframe⟩ := write_segment h hv
  refine ⟨digits', hwr, hlen, ?_, hframe⟩
  have hsplit (l : Uint32List) (hl : l.length = digits.length) : l.total = l.value i + digit_base ^ i *
      (l.segment i p.width + digit_base ^ p.width * l.segment (i + p.width) (digits.length - (i + p.width))) := by
    rw [← Uint32List.segment_add, ← Uint32List.value_add, Uint32List.total]
    congr 1
    omega
  have hlo : digits'.value i = digits.value i := value_congr fun k hk => hframe k (.inl hk)
  have hhi : digits'.segment (i + p.width) (digits.length - (i + p.width)) =
      digits.segment (i + p.width) (digits.length - (i + p.width)) :=
    value_congr fun k _ => hframe _ (.inr (Nat.le_add_right ..))
  rw [hsplit digits' hlen, hsplit digits rfl, hlo, hhi, hseg]
  ring

end

/-- An array that may be processed in pairs has all the words that its digits are part of. -/
lemma words_le (h : Padded digits n) : p.width * p.steps n ≤ digits.length := by
  have heven := h.even_length
  have hle := h.used_le
  have hsteps := p.width_mul_steps_le n
  omega

/-- A digit that is processed with the most significant one does not count. -/
lemma value_words {n k : Nat} (h : Padded digits n) (hk : n ≤ k) (hle : k ≤ p.width * p.steps n) :
    digits.value k = digits.value n := by
  have hsteps := p.width_mul_steps_le n
  refine value_eq_of_zero hk fun l hnl hlk => ?_
  rw [show l = n by omega]
  exact h.leading_zero (by omega)

end Primitives

/-- The four products of half digits make up the product; no sum exceeds 64 bits, also
when the number has one bit more than a digit. -/
lemma half_digit_product_spec {xl xh m a c : Nat} (hxl : xl < 2 ^ 16) (hxh : xh < 2 ^ 17) (hm : m < digit_base)
    (ha : a < digit_base) (hc : c < 2 ^ 34) :
    ∃ digit carry, half_digit_product xl xh m a c = .ok (digit, carry) ∧ digit < digit_base ∧
      digit + carry * digit_base = (xh * 2 ^ 16 + xl) * m + a + c := by
  have hml : m &&& half_digit_mask = m % 2 ^ 16 := and_two_pow_sub_one_eq_mod m 16
  have hmh : m >>> half_digit_bits = m / 2 ^ 16 := shiftRight_eq_div_pow m 16
  have hmlt : m % 2 ^ 16 < 2 ^ 16 := mod_lt _ (by norm_num)
  have hmhlt : m / 2 ^ 16 < 2 ^ 16 := Nat.div_lt_of_lt_mul (by norm_num at hm ⊢; exact hm)
  have hsplit : (xh * 2 ^ 16 + xl) * m = xh * (m / 2 ^ 16) * 2 ^ 32 + (xh * (m % 2 ^ 16) + m / 2 ^ 16 * xl) * 2 ^ 16
      + xl * (m % 2 ^ 16) := by
    conv_lhs => rw [← mod_add_div m (2 ^ 16)]
    ring
  have h1 := mul_le_mul hxh.le hmlt.le
  have h2 := mul_le_mul hmhlt.le hxl.le
  have h3 := mul_le_mul hxl.le hmlt.le
  have h4 := mul_le_mul hxh.le hmhlt.le
  simp only [half_digit_product, hml, hmh]
  generalize xh * (m % 2 ^ 16) = p1 at *
  generalize m / 2 ^ 16 * xl = p2 at *
  generalize xl * (m % 2 ^ 16) = p3 at *
  generalize xh * (m / 2 ^ 16) = p4 at *
  have hph : (p1 + p2) &&& half_digit_mask = (p1 + p2) % 2 ^ 16 := and_two_pow_sub_one_eq_mod _ 16
  rw [fit_eq (by omega), ok_bind, hph, shiftLeft_eq]
  simp only [digit_base, digit_bits, half_digit_bits] at *
  generalize hpl : p3 + (p1 + p2) % 2 ^ 16 * 2 ^ 16 + a + c = pl
  have hmask : pl &&& digit_mask = pl % 2 ^ 32 := and_two_pow_sub_one_eq_mod _ 32
  rw [fit_eq (by omega), ok_bind, shiftRight_eq_div_pow, shiftRight_eq_div_pow, fit_eq (by omega), ok_bind, hmask]
  exact ⟨_, _, rfl, by omega, by omega⟩

/-- One step of a loop: the number grows by the product with a word of the multiplicand and
by the carry, up to what is carried on. The factor and the carry are below `s` words. -/
structure AddsProduct (p : Primitives) (s x : Nat) (m : Uint32List) (i j k : Nat) (state state' : Uint32List × Nat) :
    Prop where
  length_eq : state'.1.length = state.1.length
  carry_lt : state'.2 < s * digit_base ^ p.width
  sum_eq : state'.1.total + state'.2 * digit_base ^ (j + p.width * (k + 1)) =
    state.1.total + (x * m.segment (i + p.width * k) p.width + state.2) * digit_base ^ (j + p.width * k)
  above_eq : ∀ l, j + p.width * (k + 1) ≤ l → state'.1.digit l = state.1.digit l

/-- The product with a word, when a word and a carry are added, is below `s` times two words. -/
lemma product_lt {s w x m a c : Nat} (hx : x < s * w) (hm : m < w) (ha : a < w) (hc : c < s * w) :
    x * m + a + c < s * w * w := by
  obtain ⟨v, rfl⟩ := exists_eq_succ_of_ne_zero (ne_zero_of_lt hm)
  have hxm : x * m ≤ x * v := mul_le_mul_left x (le_of_lt_succ hm)
  have hxv : (x + 1) * v ≤ s * (v + 1) * v := mul_le_mul_right v hx
  linarith

open Primitives
variable (p : Primitives) {state : Uint32List × Nat} {s x : Nat}

/-- Storing the lower word of a product and carrying on the upper one. -/
lemma addsProduct_of_write (s x : Nat) (m : Uint32List) (i j k : Nat) (state : Uint32List × Nat)
    {low high : Nat} (hx : x < s * digit_base ^ p.width) (hj : j + p.width * (k + 1) ≤ state.1.length)
    (hc : state.2 < s * digit_base ^ p.width) (hlo : low < digit_base ^ p.width)
    (hsum : low + high * digit_base ^ p.width =
      x * m.segment (i + p.width * k) p.width + state.1.segment (j + p.width * k) p.width + state.2) :
    ∃ digits, p.write state.1 (j + p.width * k) low = .ok digits ∧ AddsProduct p s x m i j k state (digits, high) := by
  rw [mul_succ, ← add_assoc] at hj
  obtain ⟨digits, hwr, hlen, htotal, hframe⟩ := write_total hj hlo
  refine ⟨digits, hwr, hlen, ?_, ?_, fun l hl => hframe l (.inr ?_)⟩
  · have hlt := product_lt hx (m.segment_lt (i + p.width * k) p.width) (state.1.segment_lt (j + p.width * k) p.width) hc
    refine Nat.lt_of_mul_lt_mul_right (a := digit_base ^ p.width) ?_
    show high * digit_base ^ p.width < _
    omega
  · have hscaled := congrArg (· * digit_base ^ (j + p.width * k)) hsum
    rw [mul_succ, ← add_assoc, pow_add, add_mul]
    linarith
  · rw [mul_succ] at hl
    omega

lemma mul_add_step_spec {m : Uint32List} {i j k : Nat} (hs : s ≤ 2)
    (hx : x < s * digit_base) (hm : i + k < m.length) (hj : j + k < state.1.length) (hc : state.2 < s * digit_base) :
    ∃ state', mul_add_step x m i j state k = .ok state' ∧ AddsProduct .pure_dart s x m i j k state state' := by
  have hxl : x &&& half_digit_mask = x % 2 ^ 16 := and_two_pow_sub_one_eq_mod x 16
  have hxh : x >>> half_digit_bits = x / 2 ^ 16 := shiftRight_eq_div_pow x 16
  have hxsplit : x / 2 ^ 16 * 2 ^ 16 + x % 2 ^ 16 = x := div_add_mod' x _
  have hbase : digit_base = 2 ^ 32 := rfl
  have hbound := mul_le_mul_right digit_base hs
  obtain ⟨low, high, hprod, hlo, hsum⟩ := half_digit_product_spec (show x % 2 ^ 16 < 2 ^ 16 by omega)
    (show x / 2 ^ 16 < 2 ^ 17 by omega) (m.digit_lt (i + k)) (state.1.digit_lt (j + k)) (show state.2 < 2 ^ 34 by omega)
  rw [hxsplit] at hsum
  have hword : digit_base ^ pure_dart.width = digit_base := pow_one _
  obtain ⟨digits, hwr, hadds⟩ := addsProduct_of_write .pure_dart s x m i j k state (hword.symm ▸ hx)
    (by rw [width]; omega) (hword.symm ▸ hc) (hword.symm ▸ hlo) (by simpa [width] using hsum)
  refine ⟨_, ?_, hadds⟩
  rw [width, one_mul] at hwr
  rw [mul_add_step, read_eq hm, ok_bind, read_eq hj, ok_bind, hxl, hxh, hprod, ok_bind]
  show (state.1.write (j + k) low >>= fun accumulator_digits => pure (accumulator_digits, high)) = _
  rw [show state.1.write (j + k) low = .ok digits from hwr, ok_bind, pure_eq_ok]

lemma mul_add_pair_step_spec {m : Uint32List} {i j k : Nat}
    (hx : x < s * digit_base ^ 2) (hm : i + 2 * (k + 1) ≤ m.length) (hj : j + 2 * (k + 1) ≤ state.1.length)
    (hc : state.2 < s * digit_base ^ 2) :
    ∃ state', mul_add_pair_step x m i j state k = .ok state' ∧ AddsProduct .intrinsics s x m i j k state state' := by
  obtain ⟨digits, hwr, hadds⟩ := addsProduct_of_write .intrinsics s x m i j k state hx hj hc (low_lt _ _)
    (low_add_high _ _)
  refine ⟨_, ?_, hadds⟩
  rw [mul_add_pair_step, read_eq (by rw [width]; omega), ok_bind, read_eq (by rw [width]; omega), ok_bind]
  simp only [width] at hwr ⊢
  rw [hwr, ok_bind, pure_eq_ok]

/-- The carry that is left after the last word of the multiplicand is added to the words
that follow. -/
lemma propagate_carry_spec (fuel : Nat) {digits : Uint32List} {j c : Nat} (hj : j ≤ digits.length)
    (hwords : p.width ∣ digits.length - j) (hfuel : digits.length ≤ j + fuel) (hc : c < digit_base ^ p.width)
    (hfits : digits.total + c * digit_base ^ j < digit_base ^ digits.length) :
    ∃ digits', propagate_carry p fuel digits j c = .ok digits' ∧ digits'.length = digits.length ∧
      digits'.total = digits.total + c * digit_base ^ j := by
  induction fuel generalizing digits j c with
  | zero =>
    have hend : j = digits.length := by omega
    have h0 : c = 0 := by
      by_contra hne
      have hle := mul_le_mul_right (digit_base ^ j) (one_le_iff_ne_zero.mpr hne)
      rw [← hend] at hfits
      omega
    exact ⟨digits, if_pos h0, rfl, by rw [h0]; omega⟩
  | succ fuel ih =>
    by_cases h0 : c = 0
    · exact ⟨digits, if_pos h0, rfl, by rw [h0]; omega⟩
    have hlt : j < digits.length := by
      by_contra hge
      have hend : j = digits.length := by omega
      have hle := mul_le_mul_right (digit_base ^ j) (one_le_iff_ne_zero.mpr h0)
      rw [← hend] at hfits
      omega
    have hroom : j + p.width ≤ digits.length := by
      have hle := le_of_dvd (by omega) hwords
      omega
    have hword := digits.segment_lt j p.width
    have hsplit := p.low_add_high (digits.segment j p.width + c)
    obtain ⟨digits1, hwr, hlen, htotal, _⟩ := write_total hroom (p.low_lt (digits.segment j p.width + c))
    have hhi : p.high (digits.segment j p.width + c) < digit_base ^ p.width := by
      rw [p.high_eq]
      refine (Nat.div_lt_of_lt_mul (k := 2) (by omega)).trans_le ?_
      exact (Nat.le_self_pow p.width_pos.ne' _).trans' (by norm_num)
    have hval : digits1.total + p.high (digits.segment j p.width + c) * digit_base ^ (j + p.width) =
        digits.total + c * digit_base ^ j := by
      have hscaled := congrArg (· * digit_base ^ j) hsplit
      simp only [add_mul] at hscaled
      rw [pow_add]
      linarith
    have hpos := p.width_pos
    have hwords1 : p.width ∣ digits1.length - (j + p.width) := by
      rw [hlen, sub_add_eq]
      exact dvd_sub hwords (dvd_refl _)
    obtain ⟨digits2, hrest, hlen2, htotal2⟩ := ih (hlen ▸ hroom) hwords1 (by omega) hhi
      (by rw [hval, hlen]; exact hfits)
    refine ⟨digits2, ?_, hlen2.trans hlen, htotal2.trans hval⟩
    have hfit : p.fit (digits.segment j p.width + c) = .ok (digits.segment j p.width + c) := by
      cases p with
      | pure_dart =>
        simp only [width, digit_base, pow_one] at hword hc ⊢
        exact fit_eq (by omega)
      | intrinsics => rfl
    rw [propagate_carry, if_neg h0, read_eq hroom, ok_bind, hfit, ok_bind, hwr, ok_bind, hrest]

/-- The loop over the multiplicand, for a factor that may have a bit more than a word. -/
lemma mul_add_loop_spec {s x c n : Nat} {m acc : Uint32List} {i j : Nat} (hs : s ≤ 2)
    (hx : x < s * digit_base ^ p.width) (hc : c < s * digit_base ^ p.width) (hm : i + p.width * n ≤ m.length)
    (hj : j + p.width * n ≤ acc.length) :
    ∃ acc' c', (List.range n).foldlM (mul_add_loop p x m i j) (acc, c) = .ok (acc', c') ∧ acc'.length = acc.length ∧
      c' < s * digit_base ^ p.width ∧ acc'.total + c' * digit_base ^ (j + p.width * n) =
        acc.total + (x * m.segment i (p.width * n) + c) * digit_base ^ j ∧
      ∀ l, j + p.width * n ≤ l → acc'.digit l = acc.digit l := by
  let I : Nat → Uint32List × Nat → Prop := fun k t =>
    t.1.length = acc.length ∧ t.2 < s * digit_base ^ p.width ∧
      t.1.total + t.2 * digit_base ^ (j + p.width * k) =
        acc.total + (x * m.segment i (p.width * k) + c) * digit_base ^ j ∧
      ∀ l, j + p.width * k ≤ l → t.1.digit l = acc.digit l
  have hstep : ∀ k t, k < n → I k t → ∃ t', mul_add_loop p x m i j t k = .ok t' ∧ I (k + 1) t' := by
    rintro k t hk ⟨hlen, hc, hsum, habove⟩
    have hone : ∃ t', mul_add_loop p x m i j t k = .ok t' ∧ AddsProduct p s x m i j k t t' := by
      cases p with
      | pure_dart =>
        simp only [width, pow_one, one_mul] at *
        exact mul_add_step_spec hs hx (by omega) (by omega) hc
      | intrinsics =>
        simp only [width] at *
        exact mul_add_pair_step_spec hx (by omega) (by omega) hc
    obtain ⟨t', ht', hadds⟩ := hone
    refine ⟨t', ht', hadds.length_eq.trans hlen, hadds.carry_lt, ?_, fun l hl => ?_⟩
    · rw [hadds.sum_eq, mul_succ, segment_add, pow_add _ j] at *
      linarith
    · rw [hadds.above_eq l hl]
      exact habove l (by rw [mul_succ] at hl; omega)
  obtain ⟨⟨acc', c'⟩, hrun, hlen, hc', hsum, habove⟩ := foldlM_range_spec _ I n hstep (acc, c)
    ⟨rfl, hc, by simp [Uint32List.segment], fun _ _ => rfl⟩
  exact ⟨acc', c', hrun, hlen, hc', hsum, habove⟩

section
variable {x_digits m acc : Uint32List} {xi i j n : Nat} (hx : xi + p.width ≤ x_digits.length)
  (hm : i + p.width * p.steps n ≤ m.length) (hj : j + p.width * p.steps n ≤ acc.length) (hwords : p.width ∣ acc.length - j)
include hx hm hj hwords

/-- The accumulator grows by the product, at its place, if there is room for the sum. -/
lemma mul_add_spec
    (hfits : acc.total + x_digits.segment xi p.width * m.segment i (p.width * p.steps n) * digit_base ^ j <
      digit_base ^ acc.length)
    : ∃ acc', mul_add p x_digits xi m i acc j n = .ok (acc', p.width) ∧ acc'.length = acc.length ∧ acc'.total =
    acc.total + x_digits.segment xi p.width * m.segment i (p.width * p.steps n) * digit_base ^ j := by
  by_cases h0 : x_digits.segment xi p.width = 0
  · refine ⟨acc, ?_, rfl, by rw [h0]; simp⟩
    rw [mul_add, read_eq hx, ok_bind, if_pos h0, pure_eq_ok]
  obtain ⟨acc1, c, hloop, hlen1, hc, hsum, _⟩ := mul_add_loop_spec p (by decide)
    (by rw [one_mul]; exact x_digits.segment_lt xi p.width) (by positivity : 0 < 1 * digit_base ^ p.width) hm hj
  rw [one_mul] at hc
  have hwords1 : p.width ∣ acc1.length - (j + p.width * p.steps n) := by
    rw [hlen1, sub_add_eq]
    exact dvd_sub hwords (dvd_mul_right _ _)
  obtain ⟨acc2, hcarry, hlen2, htotal⟩ := propagate_carry_spec p (acc1.length - j) (hlen1 ▸ hj) hwords1
    (by omega) hc (by rw [hsum, hlen1]; exact hfits)
  refine ⟨acc2, ?_, hlen2.trans hlen1, htotal.trans hsum⟩
  rw [mul_add, read_eq hx, ok_bind, if_neg h0]
  rw [hloop, ok_bind]
  show (propagate_carry p (acc1.length - j) acc1 (j + p.width * p.steps n) c >>= _) = _
  rw [hcarry, ok_bind, pure_eq_ok]

/-- The same within the first `l` digits, when the sum needs no more: the digits above stay. -/
lemma mul_add_value_spec {l : Nat} (hl : l ≤ acc.length)
    (hfits : acc.value l + x_digits.segment xi p.width * m.segment i (p.width * p.steps n) * digit_base ^ j <
      digit_base ^ l) : ∃ acc', mul_add p x_digits xi m i acc j n = .ok (acc', p.width) ∧ acc'.length = acc.length ∧
      acc'.value l = acc.value l + x_digits.segment xi p.width * m.segment i (p.width * p.steps n) * digit_base ^ j := by
  have hsplit : acc.total = acc.value l + digit_base ^ l * acc.segment l (acc.length - l) := by
    rw [← Uint32List.value_add, Nat.add_sub_of_le hl, Uint32List.total]
  have htotal : acc.total + x_digits.segment xi p.width * m.segment i (p.width * p.steps n) * digit_base ^ j <
      digit_base ^ acc.length := by
    have hhi := mul_le_mul_left (digit_base ^ l) (acc.segment_lt l (acc.length - l))
    rw [← pow_add, add_sub_of_le hl, mul_succ] at hhi
    omega
  obtain ⟨acc', hadd, hlen, hsum⟩ := mul_add_spec p hx hm hj hwords htotal
  refine ⟨acc', hadd, hlen, ?_⟩
  have hmod : acc'.value l = acc'.total % digit_base ^ l := (value_mod_pow acc'.digit_lt (by omega)).symm
  rw [hmod, hsum, hsplit, add_right_comm, add_mul_mod_self_left, mod_eq_of_lt hfits]

end

/-- The loop of a multiplication over the digits of one factor. -/
def mul_loop (p : Primitives) (other_digits : Uint32List) (other_used : Nat) (digits : Uint32List) (used : Nat) :
    Nat → Uint32List → Nat → Checked Uint32List
  | 0, _, _ => .error .out_of_fuel
  | fuel + 1, result_digits, i =>
    if i < other_used then do
      let (result_digits, processed) ← mul_add p other_digits i digits 0 result_digits i used
      mul_loop p other_digits other_used digits used fuel result_digits (i + processed)
    else
      .ok result_digits

/-- A word that starts within the digits ends within the words of the digits. -/
lemma Primitives.next_word_le {i n : Nat} (hdvd : p.width ∣ i) (hlt : i < p.width * p.steps n) :
    i + p.width ≤ p.width * p.steps n := by
  obtain ⟨k, rfl⟩ := hdvd
  exact Nat.mul_le_mul_left _ (Nat.lt_of_mul_lt_mul_left hlt)

/-- The products with the words of a factor add up to the product. -/
lemma mul_loop_spec {x y : Uint32List} {m n t : Nat} (hx : Padded x m) (hy : Padded y n)
    (fuel : Nat) {r : Uint32List} {i : Nat} (heven : r.length % 2 = 0) (hroom : m + n ≤ r.length) (hdvd : p.width ∣ i)
    (hi : i ≤ p.width * p.steps n) (hfuel : n - i < fuel) (htotal : r.total = t + x.value m * y.value i)
    (hfits : t + x.value m * y.value n < digit_base ^ r.length) :
    ∃ r', mul_loop p y n x m fuel r i = .ok r' ∧ r'.length = r.length ∧ r'.total = t + x.value m * y.value n := by
  induction fuel generalizing r i with
  | zero => exact absurd hfuel (not_lt_zero _)
  | succ fuel ih =>
    by_cases hlt : i < n
    · have hnext := p.next_word_le hdvd (hlt.trans_le (p.le_width_mul_steps n))
      have hround := p.width_mul_steps_le m
      have hpos := p.width_pos
      have hxm : x.segment 0 (p.width * p.steps m) = x.value m := by
        rw [segment_zero_left, value_words hx (p.le_width_mul_steps m) le_rfl]
      have hsum : r.total + y.segment i p.width * x.segment 0 (p.width * p.steps m) * digit_base ^ i =
          t + x.value m * y.value (i + p.width) := by
        rw [htotal, hxm, Uint32List.value_add]
        ring
      have hle : y.value (i + p.width) ≤ y.value n := by
        rw [← value_words hy (p.le_width_mul_steps n) le_rfl]
        exact y.value_mono hnext
      have hbound := mul_le_mul_left (x.value m) hle
      obtain ⟨r1, hstep, hlen, htotal1⟩ := mul_add_spec p (hnext.trans (words_le hy))
        (by rw [zero_add]; exact words_le hx) (by omega)
        (dvd_sub (p.width_dvd heven) hdvd) (by rw [hsum]; omega)
      obtain ⟨r2, hrest, hlen2, htotal2⟩ := ih (hlen ▸ heven) (hlen ▸ hroom) (dvd_add hdvd (dvd_refl _)) hnext
        (by omega) (htotal1.trans hsum) (hlen ▸ hfits)
      refine ⟨r2, ?_, hlen2.trans hlen, htotal2⟩
      rw [mul_loop, if_pos hlt, hstep, ok_bind]
      exact hrest
    · refine ⟨r, by rw [mul_loop, if_neg hlt], rfl, ?_⟩
      rw [htotal, value_words hy (by omega) hi]

end dart.bigint
