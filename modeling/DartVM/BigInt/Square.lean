import Mathlib.Data.Nat.ModEq
import DartVM.BigInt.Shift

namespace dart.bigint
open loops Primitives Uint32List Nat positional

section
variable (p : Primitives)

/-- The square of a digit, or of a pair of digits, is added to the accumulator: what is carried on. -/
def square_word (x : Nat) (accumulator_digits : Uint32List) (j : Nat) : Checked (Uint32List × Nat) :=
  match p with
  | .pure_dart => do
    let (digit, carry) ← half_digit_product (x &&& half_digit_mask) (x >>> half_digit_bits) x
      (← accumulator_digits.read j) 0
    return (← accumulator_digits.write j (digit : Nat), carry)
  | .intrinsics => do
    let t := x * x + (← Primitives.intrinsics.read accumulator_digits j)
    return (← Primitives.intrinsics.write accumulator_digits j (Primitives.intrinsics.low t), Primitives.intrinsics.high t)

/-- The last carry of `_sqrAdd`, which may need one more bit than a digit or a pair of digits. -/
def last_carry (accumulator_digits : Uint32List) (j carry : Nat) : Checked Uint32List :=
  match p with
  | .pure_dart => do
    let carry ← fit (carry + (← accumulator_digits.read j))
    if digit_base ≤ carry then
      let accumulator_digits ← accumulator_digits.write j (carry - digit_base : Nat)
      accumulator_digits.write (j + 1) 1
    else
      accumulator_digits.write j carry
  | .intrinsics => do
    let t := (← Primitives.intrinsics.read accumulator_digits j) + carry
    let accumulator_digits ← Primitives.intrinsics.write accumulator_digits j (Primitives.intrinsics.low t)
    Primitives.intrinsics.write accumulator_digits (j + 2) (Primitives.intrinsics.high t)

variable (x_digits : Uint32List)

/-- `accumulatorDigits[2*i..i+used-1] += xDigits[i]*xDigits[i] + 2*xDigits[i]*xDigits[i+1..used-1]`, and
the number of digits of `xDigits` that are processed. -/
def sqr_add (i : Nat) (accumulator_digits : Uint32List) (used : Nat) : Checked (Uint32List × Nat) := do
  let x ← p.read x_digits i
  if x = 0 then return (accumulator_digits, p.width)
  let state ← square_word p x accumulator_digits (2 * i)
  let (accumulator_digits, carry) ← (List.range (p.steps used - i / p.width - 1)).foldlM
    (mul_add_loop p (2 * x) x_digits (i + p.width) (2 * i + p.width)) state
  let accumulator_digits ← last_carry p accumulator_digits (i + p.width * p.steps used) carry
  return (accumulator_digits, p.width)

/-- `resultDigits[0..resultUsed-1] = xDigits[0..xUsed-1]*otherDigits[0..otherUsed-1]`, and
`resultUsed`. -/
def mul_digits (x_used : Nat) (other_digits : Uint32List) (other_used : Nat)
    (result_digits : Uint32List) : Checked (Uint32List × Nat) := do
  let result_used := x_used + other_used
  let i := result_used + (result_used &&& 1)
  check (i ≤ result_digits.length)
  let result_digits ← clear_digits i result_digits
  let result_digits ← mul_loop p other_digits other_used x_digits x_used (other_used + 1) result_digits 0
  return (result_digits, result_used)

/-- The loop of `_sqrDigits`, with the place where it ends. -/
def sqr_loop (p : Primitives) (x_digits : Uint32List) (x_used : Nat) : Nat → Uint32List → Nat →
    Checked (Uint32List × Nat)
  | 0, _, _ => .error .out_of_fuel
  | fuel + 1, result_digits, i =>
    if i + 1 < x_used then do
      let (result_digits, processed) ← sqr_add p x_digits i result_digits x_used
      sqr_loop p x_digits x_used fuel result_digits (i + processed)
    else
      .ok (result_digits, i)

/-- `resultDigits[0..resultUsed-1] = xDigits[0..xUsed-1]^2`, and `resultUsed`. -/
def sqr_digits (x_used : Nat) (result_digits : Uint32List) : Checked (Uint32List × Nat) := do
  let result_used := 2 * x_used
  check (result_used ≤ result_digits.length)
  let result_digits ← clear_digits result_used result_digits
  let (result_digits, i) ← sqr_loop p x_digits x_used (x_used + 1) result_digits 0
  -- The last step is already done if digit pairs were processed above.
  if i < x_used then
    let (result_digits, _) ← mul_add p x_digits i x_digits i result_digits (2 * i) 1
    return (result_digits, result_used)
  else
    return (result_digits, result_used)

variable {p : Primitives} {digits : Uint32List} {j c : Nat}

/-- The square of a word is added; the carry is below a word. -/
lemma square_word_spec {x : Nat} (hx : x < digit_base ^ p.width) (hj : j + p.width ≤ digits.length) : ∃ digits' c,
    square_word p x digits j = .ok (digits', c) ∧ digits'.length = digits.length ∧ c < 2 * digit_base ^ p.width ∧
    digits'.total + c * digit_base ^ (j + p.width) = digits.total + x * x * digit_base ^ j ∧ ∀ k, j + p.width ≤ k →
    digits'.digit k = digits.digit k := by
  have hword := digits.segment_lt j p.width
  have hsum (low high : Nat) (hlo : low < digit_base ^ p.width)
      (h : low + high * digit_base ^ p.width = x * x + digits.segment j p.width) :
      ∃ digits', p.write digits j low = .ok digits' ∧ digits'.length = digits.length ∧ high < 2 * digit_base ^ p.width ∧
        digits'.total + high * digit_base ^ (j + p.width) = digits.total + x * x * digit_base ^ j ∧
        ∀ k, j + p.width ≤ k → digits'.digit k = digits.digit k := by
    obtain ⟨digits', hwr, hlen, htotal, hframe⟩ := write_total hj hlo
    refine ⟨digits', hwr, hlen, ?_, ?_, fun k hk => hframe k (.inr hk)⟩
    · have hlt := product_lt (show x < 1 * digit_base ^ p.width by omega) hx hword
        (by positivity : 0 < 1 * digit_base ^ p.width)
      refine Nat.lt_of_mul_lt_mul_right (a := digit_base ^ p.width) ?_
      rw [mul_assoc] at hlt ⊢
      omega
    · have hscaled := congrArg (· * digit_base ^ j) h
      rw [pow_add]
      linarith
  cases p with
  | pure_dart =>
    simp only [width, pow_one, segment_one] at *
    have hxl : x &&& half_digit_mask = x % 2 ^ 16 := and_two_pow_sub_one_eq_mod x 16
    have hxh : x >>> half_digit_bits = x / 2 ^ 16 := shiftRight_eq_div_pow x 16
    have hbase : digit_base = 2 ^ 32 := rfl
    obtain ⟨low, high, hprod, hlo, hparts⟩ := half_digit_product_spec (show x % 2 ^ 16 < 2 ^ 16 by omega)
      (show x / 2 ^ 16 < 2 ^ 17 by omega) hx hword (show 0 < 2 ^ 34 by decide)
    rw [div_add_mod' x, add_zero] at hparts
    obtain ⟨digits', hwr, hrest⟩ := hsum low high hlo hparts
    refine ⟨digits', high, ?_, hrest⟩
    rw [square_word, Uint32List.read_eq (by omega), ok_bind, hxl, hxh, hprod, ok_bind]
    show (digits.write j low >>= fun accumulator_digits => pure (accumulator_digits, high)) = _
    rw [show digits.write j low = .ok digits' from hwr, ok_bind, pure_eq_ok]
  | intrinsics =>
    obtain ⟨digits', hwr, hrest⟩ := hsum _ _ (low_lt _ _) (low_add_high _ _)
    refine ⟨digits', _, ?_, hrest⟩
    rw [square_word, Primitives.read_eq hj, ok_bind]
    dsimp only
    rw [hwr, ok_bind, pure_eq_ok]

/-- The last carry is added, but what was there above it is lost. -/
lemma last_carry_spec {l : Nat} (hj : j + 2 * p.width ≤ digits.length)
    (hlt : digits.segment j p.width + c < 2 * digit_base ^ p.width)
    (h0 : digit_base ^ l ∣ digits.segment (j + p.width) p.width * digit_base ^ (j + p.width)) :
    ∃ digits', last_carry p digits j c = .ok digits' ∧ digits'.length = digits.length ∧
      digits'.total ≡ digits.total + c * digit_base ^ j [MOD digit_base ^ l] := by
  -- Storing the two words of the sum.
  have hboth (low high : Nat) (hlo : low < digit_base ^ p.width) (hhi : high < digit_base ^ p.width)
      (h : low + high * digit_base ^ p.width = digits.segment j p.width + c) :
      ∃ digits1 digits2, p.write digits j low = .ok digits1 ∧ p.write digits1 (j + p.width) high = .ok digits2 ∧
        digits2.length = digits.length ∧ digits2.total ≡ digits.total + c * digit_base ^ j [MOD digit_base ^ l] := by
    obtain ⟨digits1, hwr1, hlen1, htotal1, hframe1⟩ := write_total (show j + p.width ≤ digits.length by omega) hlo
    obtain ⟨digits2, hwr2, hlen2, htotal2, _⟩ := write_total (show j + p.width + p.width ≤ digits1.length by omega) hhi
    have hseg : digits1.segment (j + p.width) p.width = digits.segment (j + p.width) p.width :=
      value_congr fun k _ => hframe1 _ (.inr (Nat.le_add_right ..))
    rw [hseg] at htotal2
    refine ⟨digits1, digits2, hwr1, hwr2, hlen2.trans hlen1, ?_⟩
    have hscaled := congrArg (· * digit_base ^ j) h
    have hsum : digits2.total + digits.segment (j + p.width) p.width * digit_base ^ (j + p.width) =
        digits.total + c * digit_base ^ j := by
      rw [htotal2, pow_add]
      linarith
    rw [← hsum]
    have hmod := (modEq_zero_iff_dvd.mpr h0).symm.add_left digits2.total
    rwa [add_zero] at hmod
  cases p with
  | pure_dart =>
    simp only [width, pow_one, segment_one, mul_one] at *
    have hfit : fit (c + digits.digit j) = .ok (c + digits.digit j) := by
      have hbase : digit_base = 2 ^ 32 := rfl
      exact fit_eq (by omega)
    rw [last_carry, Uint32List.read_eq (by omega), ok_bind, hfit, ok_bind]
    by_cases hcarry : digit_base ≤ c + digits.digit j
    · obtain ⟨digits1, digits2, hwr1, hwr2, hlen, hmod⟩ :=
        hboth (c + digits.digit j - digit_base) 1 (by omega) (by decide) (by omega)
      refine ⟨digits2, ?_, hlen, hmod⟩
      rw [if_pos hcarry, show digits.write j ((c + digits.digit j - digit_base : Nat) : Int) = .ok digits1 from hwr1,
        ok_bind]
      exact hwr2
    · obtain ⟨digits', hwr, hlen, _, htotal⟩ := write_total (show j < digits.length by omega) (not_le.mp hcarry)
      refine ⟨digits', by rw [if_neg hcarry, hwr], hlen, ?_⟩
      rw [show digits'.total = digits.total + c * digit_base ^ j by linarith]
  | intrinsics =>
    have hhi : intrinsics.high (digits.segment j 2 + c) < digit_base ^ 2 := by
      rw [high_eq]
      exact (Nat.div_lt_of_lt_mul (by rwa [Nat.mul_comm])).trans (by decide)
    obtain ⟨digits1, digits2, hwr1, hwr2, hlen, hmod⟩ := hboth _ _ (low_lt _ _) hhi (low_add_high _ _)
    refine ⟨digits2, ?_, hlen, hmod⟩
    rw [last_carry, Primitives.read_eq (by omega), ok_bind]
    show (intrinsics.write digits j (intrinsics.low (digits.segment j 2 + c)) >>= _) = _
    rw [show intrinsics.write digits j (intrinsics.low (digits.segment j 2 + c)) = .ok digits1 from hwr1, ok_bind]
    exact hwr2

end

/-- What the squares and the doubled products of the digits below place `i` add up to, of a number
with `n` digits. -/
def partialSquare (x : Uint32List) (n i : Nat) : Nat :=
  x.value i * (x.value i + 2 * (digit_base ^ i * x.segment i (n - i)))

section
variable {x : Uint32List} {n i w : Nat}

lemma partialSquare_zero : partialSquare x n 0 = 0 := zero_mul _

lemma partialSquare_self : partialSquare x n n = x.value n * x.value n := by
  rw [partialSquare, Nat.sub_self]
  rfl

lemma value_eq_add_segment (h : i ≤ n) : x.value n = x.value i + digit_base ^ i * x.segment i (n - i) := by
  rw [← Uint32List.value_add, Nat.add_sub_of_le h]

/-- What a word adds: its square and twice its product with the digits above. -/
lemma partialSquare_add (h : i + w ≤ n) : partialSquare x n (i + w) = partialSquare x n i +
    (x.segment i w * x.segment i w * digit_base ^ (2 * i) +
      2 * x.segment i w * x.segment (i + w) (n - (i + w)) * digit_base ^ (2 * i + w)) := by
  have hsplit : x.segment i (n - i) = x.segment i w + digit_base ^ w * x.segment (i + w) (n - (i + w)) := by
    rw [← Uint32List.segment_add]
    congr 1
    omega
  rw [partialSquare, partialSquare, hsplit, Uint32List.value_add, pow_add, Nat.two_mul i, pow_add]
  ring

lemma partialSquare_le (h : i ≤ n) : partialSquare x n i ≤ x.value n * x.value n := by
  rw [partialSquare, value_eq_add_segment h]
  nlinarith [zero_le (digit_base ^ i * x.segment i (n - i) * (digit_base ^ i * x.segment i (n - i)))]

lemma partialSquare_lt {u : Nat} (h : i ≤ n) (hu : x.value n < digit_base ^ u) :
    partialSquare x n i < 2 * digit_base ^ (i + u) := by
  have hlo := x.value_lt i
  have hsum : x.value i + 2 * (digit_base ^ i * x.segment i (n - i)) < 2 * digit_base ^ u := by
    rw [value_eq_add_segment h] at hu
    omega
  have hlt := Nat.mul_lt_mul'' hlo hsum
  rw [partialSquare, pow_add]
  linarith

end

variable (p : Primitives) {i u : Nat} {digits : Uint32List}

/-- The places that `_sqrAdd` writes to, for a word that is not the last one. -/
lemma Primitives.square_places (hdvd : p.width ∣ i) (hi : i + 1 < u) :
    i + p.width ≤ p.width * p.steps u ∧ i + p.width * p.steps u + 2 * p.width ≤ 2 * u + 2 ∧
      (i + p.width * p.steps u + p.width = 2 * u ∨ i + p.width * p.steps u + 2 * p.width ≤ 2 * u) := by
  cases p with
  | pure_dart =>
    simp only [width, steps]
    omega
  | intrinsics =>
    simp only [width, steps] at *
    omega

/-- The products of a word before the last carry is added: the places from `j` on are unchanged. -/
lemma square_products_spec {x acc : Uint32List} {i n j : Nat} (hx : i + p.width * (n + 1) ≤ x.length)
    (hj : 2 * i + p.width * (n + 1) = j) (hroom : j ≤ acc.length) :
    ∃ state acc' c, square_word p (x.segment i p.width) acc (2 * i) = .ok state ∧
      (List.range n).foldlM (mul_add_loop p (2 * x.segment i p.width) x (i + p.width) (2 * i + p.width)) state =
        .ok (acc', c) ∧ acc'.length = acc.length ∧ acc'.total + c * digit_base ^ j = acc.total +
        (x.segment i p.width * x.segment i p.width * digit_base ^ (2 * i) +
          2 * x.segment i p.width * x.segment (i + p.width) (p.width * n) * digit_base ^ (2 * i + p.width)) ∧
      ∀ k, j ≤ k → acc'.digit k = acc.digit k := by
  have hword := x.segment_lt i p.width
  rw [mul_succ] at hx hj
  obtain ⟨acc1, c1, hsquare, hlen1, hc1, hsum1, hframe1⟩ :=
    square_word_spec hword (show 2 * i + p.width ≤ acc.length by omega)
  obtain ⟨acc2, c2, hloop, hlen2, -, hsum2, hframe2⟩ := mul_add_loop_spec p (i := i + p.width) (m := x)
    le_rfl (show 2 * x.segment i p.width < 2 * digit_base ^ p.width by omega) hc1 (by omega)
    (show 2 * i + p.width + p.width * n ≤ acc1.length by omega)
  rw [show 2 * i + p.width + p.width * n = j by omega] at hsum2 hframe2
  refine ⟨(acc1, c1), acc2, c2, hsquare, hloop, hlen2.trans hlen1, ?_, fun k hk => ?_⟩
  · linarith
  · rw [hframe2 k hk, hframe1 k (by omega)]

lemma total_eq_add_segment {j : Nat} (h : j ≤ digits.length) :
    digits.total = digits.value j + digit_base ^ j * digits.segment j (digits.length - j) := value_eq_add_segment h

lemma value_eq_total_mod {n : Nat} (h : n ≤ digits.length) : digits.value n = digits.total % digit_base ^ n :=
  (value_mod_pow digits.digit_lt h).symm

/-- The square of a word and its doubled products with the words above are added. -/
lemma sqr_add_spec {x acc : Uint32List} (hx : Padded x u) (hdvd : p.width ∣ i)
    (hi : i + 1 < u) (hroom : 2 * u + 2 ≤ acc.length)
    (hval : acc.value (2 * u) = partialSquare x (p.width * p.steps u) i) :
    ∃ acc', sqr_add p x i acc u = .ok (acc', p.width) ∧ acc'.length = acc.length ∧
      acc'.value (2 * u) = partialSquare x (p.width * p.steps u) (i + p.width) := by
  obtain ⟨hnext, hwrites, hends⟩ := p.square_places hdvd hi
  have hwords := words_le (p := p) hx
  have hxu : x.value (p.width * p.steps u) < digit_base ^ u := by
    rw [value_words hx (p.le_width_mul_steps u) le_rfl]
    exact x.value_lt u
  have hpos := p.width_pos
  have hle := p.le_width_mul_steps u
  have hsum := partialSquare_add (x := x) hnext
  have hread : p.read x i = .ok (x.segment i p.width) := read_eq (by omega)
  by_cases h0 : x.segment i p.width = 0
  · refine ⟨acc, ?_, rfl, by rw [hval, hsum, h0]; simp⟩
    rw [sqr_add, hread, ok_bind, if_pos h0, pure_eq_ok]
  have hsteps : p.width * (p.steps u - i / p.width - 1) = p.width * p.steps u - (i + p.width) := by
    rw [Nat.sub_sub, Nat.mul_sub, mul_succ, Nat.mul_div_cancel' hdvd]
  obtain ⟨state, acc1, c, hsquare, hloop, hlen1, htotal1, hframe⟩ := square_products_spec p (x := x)
    (i := i) (n := p.steps u - i / p.width - 1) (by rw [mul_succ]; omega) (by rw [mul_succ]; omega)
    (show i + p.width * p.steps u ≤ acc.length by omega)
  rw [hsteps] at htotal1
  have hlt := partialSquare_lt hnext hxu
  have hlt0 := partialSquare_lt (show i ≤ p.width * p.steps u by omega) hxu
  have hbound : partialSquare x (p.width * p.steps u) (i + p.width) < digit_base ^ (2 * u) := by
    refine (partialSquare_le hnext).trans_lt ?_
    rw [two_mul, pow_add]
    exact mul_lt_mul'' hxu hxu
  have hplace : i + p.width + u ≤ i + p.width * p.steps u + p.width := by omega
  generalize hJ : i + p.width * p.steps u = J at *
  generalize hD : x.segment i p.width * x.segment i p.width * digit_base ^ (2 * i) +
    2 * x.segment i p.width * x.segment (i + p.width) (p.width * p.steps u - (i + p.width)) *
      digit_base ^ (2 * i + p.width) = D at *
  have hseg (k n : Nat) (hk : J ≤ k) : acc1.segment k n = acc.segment k n :=
    value_congr fun l _ => hframe _ (by omega)
  -- The carry and the word it is added to: their sum is what the partial square has at that place.
  have hcarry : acc1.segment J p.width + c < 2 * digit_base ^ p.width := by
    have hlo : acc1.value J + c * digit_base ^ J = acc.value J + D := by
      rw [total_eq_add_segment (show J ≤ acc1.length by omega), hseg _ _ le_rfl, hlen1,
        total_eq_add_segment (show J ≤ acc.length by omega)] at htotal1
      omega
    rw [← hval, value_eq_add_segment (show J ≤ 2 * u by omega)] at hsum
    have hmono : acc.segment J p.width ≤ acc.segment J (2 * u - J) := value_mono (by omega)
    have hpow : digit_base ^ (i + p.width + u) ≤ digit_base ^ p.width * digit_base ^ J := by
      rw [← pow_add, add_comm p.width]
      exact Nat.pow_le_pow_right (by decide) hplace
    have htop : (acc.segment J (2 * u - J) + c) * digit_base ^ J < 2 * digit_base ^ p.width * digit_base ^ J := by
      rw [add_mul, mul_comm (acc.segment _ _), mul_assoc]
      omega
    have htop' := lt_of_mul_lt_mul_right htop
    rw [hseg _ _ le_rfl]
    omega
  have habove : digit_base ^ (2 * u) ∣ acc1.segment (J + p.width) p.width * digit_base ^ (J + p.width) := by
    rw [hseg _ _ (Nat.le_add_right ..)]
    rcases hends with hend | hend
    · rw [hend]
      exact dvd_mul_left _ _
    have hsmall : acc.value (2 * u) < digit_base ^ (J + p.width) := by
      rw [hval]
      refine hlt0.trans_le ?_
      calc 2 * digit_base ^ (i + u) ≤ digit_base * digit_base ^ (i + u) := mul_le_mul_right _ (by decide)
        _ = digit_base ^ (i + u + 1) := (pow_succ' ..).symm
        _ ≤ digit_base ^ (J + p.width) := Nat.pow_le_pow_right (by decide) (by omega)
    rw [segment_eq_value (show J + p.width + p.width ≤ 2 * u by omega), div_eq_of_lt hsmall, zero_mod, zero_mul]
    exact dvd_zero _
  obtain ⟨acc2, hlast, hlen2, hmod⟩ := last_carry_spec (by omega) hcarry habove
  refine ⟨acc2, ?_, hlen2.trans hlen1, ?_⟩
  · rw [sqr_add, hread, ok_bind, if_neg h0, hsquare, ok_bind, hloop, ok_bind, hJ]
    show (last_carry p acc1 J c >>= _) = _
    rw [hlast, ok_bind, pure_eq_ok]
  · rw [htotal1] at hmod
    rw [value_eq_total_mod (by omega), hmod, add_mod, ← value_eq_total_mod (by omega), hval, ← add_mod_mod,
      mod_mod, add_mod_mod, ← hsum, mod_eq_of_lt hbound]

lemma sqr_loop_spec {x : Uint32List} {u : Nat} (hx : Padded x u) (fuel : Nat) {acc : Uint32List}
    {i : Nat} (hdvd : p.width ∣ i) (hi : i ≤ p.width * p.steps u) (hfuel : u - i < fuel)
    (hroom : 2 * u + 2 ≤ acc.length) (hval : acc.value (2 * u) = partialSquare x (p.width * p.steps u) i) :
    ∃ acc' i', sqr_loop p x u fuel acc i = .ok (acc', i') ∧ acc'.length = acc.length ∧ p.width ∣ i' ∧
      i' ≤ p.width * p.steps u ∧ u ≤ i' + 1 ∧ acc'.value (2 * u) = partialSquare x (p.width * p.steps u) i' := by
  induction fuel generalizing acc i with
  | zero => exact absurd hfuel (not_lt_zero _)
  | succ fuel ih =>
    by_cases hlt : i + 1 < u
    · have hpos := p.width_pos
      obtain ⟨hnext, -, -⟩ := p.square_places hdvd hlt
      obtain ⟨acc1, hstep, hlen1, hval1⟩ := sqr_add_spec p hx hdvd hlt hroom hval
      obtain ⟨acc2, i', hrest, hlen2, hinv⟩ := ih (dvd_add hdvd (dvd_refl _)) hnext (by omega) (hlen1 ▸ hroom) hval1
      refine ⟨acc2, i', ?_, hlen2.trans hlen1, hinv⟩
      rw [sqr_loop, if_pos hlt, hstep]
      exact hrest
    · exact ⟨acc, i, by rw [sqr_loop, if_neg hlt], rfl, hdvd, hi, by omega, hval⟩

/-- The words that are left after the loop: the last one, or none. -/
lemma Primitives.last_word (hdvd : p.width ∣ i) (hi : i ≤ p.width * p.steps u)
    (hu : u ≤ i + 1) : if i < u then i + p.width = p.width * p.steps u else i = p.width * p.steps u := by
  cases p with
  | pure_dart | intrinsics =>
    simp only [width, steps] at *
    split_ifs <;> omega

lemma Primitives.steps_one : p.steps 1 = 1 := by cases p <;> rfl

lemma sqr_digits_spec {x r : Uint32List} {u : Nat} (hx : Padded x u) (heven : r.length % 2 = 0)
    (hroom : 2 * u + 2 ≤ r.length) : ∃ r', sqr_digits p x u r = .ok (r', 2 * u) ∧ r'.length = r.length ∧
      r'.value (2 * u) = x.value u * x.value u := by
  obtain ⟨r0, hclear, hlen0, hzeros, _⟩ := clear_digits_spec (show 2 * u ≤ r.length by omega)
  have hval0 : r0.value (2 * u) = partialSquare x (p.width * p.steps u) 0 := by
    rw [partialSquare_zero]
    exact value_eq_zero hzeros
  obtain ⟨r1, i, hloop, hlen1, hdvd, hi, hu, hval1⟩ := sqr_loop_spec p hx (u + 1) (dvd_zero _) (zero_le _)
    (by omega) (hlen0 ▸ hroom) hval0
  have hlast := p.last_word hdvd hi hu
  have hxu : x.value (p.width * p.steps u) = x.value u := value_words hx (p.le_width_mul_steps u) le_rfl
  have hwords := words_le (p := p) hx
  have hrun (next : Uint32List × Nat → Checked (Uint32List × Nat)) :
      (check (2 * u ≤ r.length) >>= fun _ => clear_digits (2 * u) r >>= fun digits =>
        sqr_loop p x u (u + 1) digits 0 >>= next) = next (r1, i) := by
    rw [check_bind (show 2 * u ≤ r.length by omega), hclear, ok_bind, hloop, ok_bind]
  by_cases hlt : i < u
  · rw [if_pos hlt] at hlast
    have hsum : partialSquare x (p.width * p.steps u) i + x.segment i p.width * x.segment i p.width *
        digit_base ^ (2 * i) = x.value u * x.value u := by
      have hadd := partialSquare_add (x := x) hlast.le
      rw [hlast, Nat.sub_self, partialSquare_self, hxu] at hadd
      rw [hadd, show x.segment (p.width * p.steps u) 0 = 0 from rfl, mul_zero, zero_mul, add_zero]
    have hfits : x.value u * x.value u < digit_base ^ (2 * u) := by
      rw [two_mul, pow_add]
      exact mul_lt_mul'' (x.value_lt u) (x.value_lt u)
    have hone : p.width * p.steps 1 = p.width := by rw [p.steps_one, mul_one]
    have hwidth := p.width_mul_steps_le 1
    obtain ⟨r2, hadd, hlen2, hval2⟩ := mul_add_value_spec p
      (show i + p.width ≤ x.length by omega) (show i + p.width * p.steps 1 ≤ x.length by omega)
      (show 2 * i + p.width * p.steps 1 ≤ r1.length by omega)
      (dvd_sub (p.width_dvd (by omega)) (dvd_mul_of_dvd_right hdvd 2)) (show 2 * u ≤ _ by omega)
      (by rw [hone, hval1, hsum]; exact hfits)
    refine ⟨r2, ?_, by omega, by rw [hval2, hone, hval1, hsum]⟩
    refine (hrun _).trans ?_
    simp [if_pos hlt, hadd]
  · rw [if_neg hlt] at hlast
    refine ⟨r1, ?_, by omega, by rw [hval1, hlast, partialSquare_self, hxu]⟩
    refine (hrun _).trans ?_
    simp [if_neg hlt]

lemma mul_digits_spec {x y r : Uint32List} {m n : Nat} (hx : Padded x m) (hy : Padded y n)
    (heven : r.length % 2 = 0) (hroom : m + n ≤ r.length) :
    ∃ r', mul_digits p x m y n r = .ok (r', m + n) ∧ r'.length = r.length ∧ Padded r' (m + n) ∧
      r'.value (m + n) = x.value m * y.value n := by
  have hand : (m + n) &&& 1 = (m + n) % 2 := and_one_is_mod _
  have hpad : m + n + (m + n) % 2 ≤ r.length := by omega
  obtain ⟨r0, hclear, hlen0, hzeros, _⟩ := clear_digits_spec hpad
  have hval0 : r0.value (m + n + (m + n) % 2) = 0 := value_eq_zero hzeros
  have hsplit := total_eq_add_segment (hlen0.symm ▸ hpad)
  have hprod : x.value m * y.value n < digit_base ^ (m + n) := by
    rw [pow_add]
    exact mul_lt_mul'' (x.value_lt m) (y.value_lt n)
  have hprod' : x.value m * y.value n < digit_base ^ (m + n + (m + n) % 2) :=
    hprod.trans_le (Nat.pow_le_pow_right (by decide) (Nat.le_add_right ..))
  rw [hval0, zero_add] at hsplit
  have hfits : r0.total + x.value m * y.value n < digit_base ^ r0.length := by
    have hhi := mul_le_mul_left (digit_base ^ (m + n + (m + n) % 2))
      (r0.segment_lt (m + n + (m + n) % 2) (r0.length - (m + n + (m + n) % 2)))
    rw [← pow_add, add_sub_of_le (by omega), mul_succ] at hhi
    omega
  obtain ⟨r1, hloop, hlen1, htotal⟩ := mul_loop_spec p hx hy (n + 1) (hlen0 ▸ heven) (hlen0 ▸ hroom)
    (dvd_zero _) (zero_le _) (by omega) (by       rw [show y.value 0 = 0 from rfl, mul_zero, add_zero]) hfits
  have hval : r1.value (m + n + (m + n) % 2) = x.value m * y.value n := by
    rw [value_eq_total_mod (by omega), htotal, hsplit, mul_add_mod, mod_eq_of_lt hprod']
  have hlead : (m + n) % 2 = 1 → r1.digit (m + n) = 0 := fun hodd => by
    rw [hodd] at hval
    rw [← segment_one, segment_eq_value le_rfl, hval, div_eq_of_lt hprod, zero_mod]
  refine ⟨r1, ?_, hlen1.trans hlen0, ⟨by omega, by omega, hlead⟩, ?_⟩
  · rw [mul_digits, hand, check_bind hpad, hclear, ok_bind, hloop, ok_bind, pure_eq_ok]
  · rw [← hval]
    refine (value_eq_of_zero (Nat.le_add_right ..) fun k hk hlt => ?_).symm
    rw [show k = m + n by omega]
    exact hlead (by omega)

end dart.bigint
