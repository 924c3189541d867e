import Mathlib.Algebra.Order.Ring.Abs
import Mathlib.Tactic.LinearCombination
import DartVM.BigInt.Digits
import DartVM.Lib.Int64
import DartVM.Lib.Loops

namespace dart.bigint
open int64 loops Int Uint32List positional Function

/-- A value that a signed 64-bit `int` holds. -/
def fit_int (value : Int) : Checked Int := if Fits value then .ok value else .error .overflow

/-- The digits are compared from the most significant one on. -/
def compare_loop (digits other_digits : Uint32List) : Nat → Checked Int
  | 0 => .ok 0
  | i + 1 => do
    let result := ((← digits.read i : Nat) : Int) - (← other_digits.read i : Nat)
    if result ≠ 0 then return result else compare_loop digits other_digits i

/-- Compares `digits[0..used-1]` with `otherDigits[0..otherUsed-1]`. -/
def compare_digits (digits : Uint32List) (used : Nat) (other_digits : Uint32List) (other_used : Nat) : Checked Int :=
  let result : Int := used - other_used
  if result = 0 then compare_loop digits other_digits used else .ok result

/-- One iteration of a loop over the digits: the carry takes in a term, its lower 32 bits
are the digit of the result and the others are carried on. -/
def carry_step (term : Uint32List → Nat → Checked Int) (state : Uint32List × Int) (i : Nat) :
    Checked (Uint32List × Int) := do
  let carry ← fit_int (state.2 + (← term state.1 i))
  let result_digits ← state.1.write i (carry.land digit_mask)
  return (result_digits, carry >>> digit_bits)

/-- The two loops of `_absAdd` and `_absSub`, over the places that both operands have
and over those that only the longer one has. -/
def abs_loops (op : Int → Int → Int) (digits : Operand) (used : Nat) (other_digits : Uint32List) (other_used : Nat)
    (result_digits : Uint32List) : Checked (Uint32List × Int) := do
  check (other_used ≤ used ∧ 0 < other_used)
  let state ← (List.range' 0 other_used).foldlM
    (carry_step fun result i => do return op (← digits.read result i : Nat) (← other_digits.read i : Nat))
    (result_digits, 0)
  (List.range' other_used (used - other_used)).foldlM
    (carry_step fun result i => do return (← digits.read result i : Nat)) state

/-- `resultDigits[0..used] = digits[0..used-1] + otherDigits[0..otherUsed-1]`. -/
def abs_add (digits : Operand) (used : Nat) (other_digits : Uint32List) (other_used : Nat)
    (result_digits : Uint32List) : Checked Uint32List := do
  let (result_digits, carry) ← abs_loops (· + ·) digits used other_digits other_used result_digits
  result_digits.write used carry

/-- `resultDigits[0..used-1] = digits[0..used-1] - otherDigits[0..otherUsed-1]`. -/
def abs_sub (digits : Operand) (used : Nat) (other_digits : Uint32List) (other_used : Nat)
    (result_digits : Uint32List) : Checked Uint32List := do
  let (result_digits, _) ← abs_loops (· - ·) digits used other_digits other_used result_digits
  return result_digits

/-- The result of a comparison is negative when the difference is. -/
lemma nonneg_iff_of_sign_eq {c d : Int} (h : c.sign = d.sign) : 0 ≤ c ↔ 0 ≤ d := by
  rw [← not_lt, ← not_lt, ← sign_eq_neg_one_iff_neg, ← sign_eq_neg_one_iff_neg, h]

/-- The order of the numbers when the digits with a higher place are equal. -/
lemma compare_loop_spec {x y : Uint32List} {n : Nat} (hx : n ≤ x.length) (hy : n ≤ y.length) :
    ∃ c, compare_loop x y n = .ok c ∧ c.sign = ((x.value n : Int) - y.value n).sign := by
  induction n with
  | zero => exact ⟨0, rfl, rfl⟩
  | succ n ih =>
    rw [compare_loop, read_eq (by omega), ok_bind, read_eq (by omega), ok_bind]
    rcases lt_trichotomy (x.digit n) (y.digit n) with hlt | heq | hgt
    · have hval := value_lt_of_digit_lt x.digit_lt hlt
      refine ⟨_, if_pos (by omega), ?_⟩
      rw [sign_eq_neg_one_of_neg (by omega), sign_eq_neg_one_of_neg]
      unfold Uint32List.value
      omega
    · obtain ⟨c, hc, hsign⟩ := ih (by omega) (by omega)
      refine ⟨c, by rw [if_neg (by omega), hc], ?_⟩
      have hdiff : (x.value (n + 1) : Int) - y.value (n + 1) = x.value n - y.value n := by
        simp only [Uint32List.value, positional.value_succ, heq]
        omega
      rw [hsign, hdiff]
    · have hval := value_lt_of_digit_lt y.digit_lt hgt
      refine ⟨_, if_pos (by omega), ?_⟩
      rw [sign_eq_one_of_pos (by omega), sign_eq_one_of_pos]
      unfold Uint32List.value
      omega

/-- Digits that do not reach as far make a smaller number. -/
lemma compare_digits_spec {x y : Uint32List} {m n : Nat} (hx : m ≤ x.length) (hy : n ≤ y.length)
    (hlt : m < n → x.value m < y.value n) (hgt : n < m → y.value n < x.value m) :
    ∃ c, compare_digits x m y n = .ok c ∧ c.sign = ((x.value m : Int) - y.value n).sign := by
  rcases lt_trichotomy m n with h | h | h
  · refine ⟨_, if_neg (by omega), ?_⟩
    rw [sign_eq_neg_one_of_neg (by omega), sign_eq_neg_one_of_neg (by omega)]
  · subst h
    obtain ⟨c, hc, hsign⟩ := compare_loop_spec hx hy
    exact ⟨c, by rw [compare_digits, if_pos (by omega), hc], hsign⟩
  · refine ⟨_, if_neg (by omega), ?_⟩
    rw [sign_eq_one_of_pos (by omega), sign_eq_one_of_pos (by omega)]

lemma value_succ_int (digits : Uint32List) (i : Nat) :
    (digits.value (i + 1) : Int) = digits.value i + digits.digit i * digit_base ^ i := by
  exact_mod_cast digits.value_succ i

section
variable {term : Uint32List → Nat → Checked Int} {t : Nat → Int}

/-- A carry is split without loss into the digit that is stored and what is carried on. -/
lemma carry_step_spec {r : Uint32List} {c : Int} {i : Nat} (hi : i < r.length) (hterm : term r i = .ok (t i))
    (ht : |t i| ≤ 2 ^ 33) (hc : |c| ≤ 2 ^ 33) :
    ∃ r' c', carry_step term (r, c) i = .ok (r', c') ∧ r'.length = r.length ∧ |c'| ≤ 2 ^ 33 ∧
      (∀ k, k ≠ i → r'.digit k = r.digit k) ∧ (r'.digit i : Int) + c' * digit_base = c + t i := by
  rw [abs_le] at ht hc
  have hmask : (c + t i).land digit_mask = ((c + t i) % 2 ^ 32).toNat := by
    rw [show ((digit_mask : Nat) : Int) = 2 ^ 32 - 1 by rfl, land_two_pow_sub_one, toNat_of_nonneg (by omega)]
  have hlo : ((c + t i) % 2 ^ 32).toNat < 2 ^ 32 := by omega
  obtain ⟨r', hwr, hlen, hdig⟩ := write_eq hi hlo
  refine ⟨r', (c + t i) / 2 ^ 32, ?_, hlen, by rw [abs_le]; omega, fun k hk => ?_, ?_⟩
  · have hfit : fit_int (c + t i) = .ok (c + t i) := if_pos ⟨by omega, by omega⟩
    simp only [carry_step, hterm, ok_bind, hfit, hmask, hwr, pure_eq_ok, shiftRight_eq_div_pow]
    norm_num
  · rw [hdig, update_of_ne hk]
  · rw [hdig, update_self]
    norm_num
    omega

/-- The loop adds up its terms: `F i` is the sum of those before place `i`. -/
lemma carry_loop_spec (F : Nat → Int) (r0 : Uint32List) (c0 : Int) (a n : Nat) (hlength : a + n ≤ r0.length)
    (hterm : ∀ r i, a ≤ i → i < a + n → (∀ k, i ≤ k → r.digit k = r0.digit k) → r.length = r0.length →
      term r i = .ok (t i)) (ht : ∀ i, |t i| ≤ 2 ^ 33) (hc : |c0| ≤ 2 ^ 33)
    (hF : ∀ i, a ≤ i → i < a + n → F (i + 1) = F i + t i * digit_base ^ i)
    (hinit : (r0.value a : Int) + c0 * digit_base ^ a = F a) :
    ∃ r c, (List.range' a n).foldlM (carry_step term) (r0, c0) = .ok (r, c) ∧ r.length = r0.length ∧
      |c| ≤ 2 ^ 33 ∧ (∀ k, a + n ≤ k → r.digit k = r0.digit k) ∧
      (r.value (a + n) : Int) + c * digit_base ^ (a + n) = F (a + n) := by
  let I : Nat → Uint32List × Int → Prop := fun i s =>
    s.1.length = r0.length ∧ |s.2| ≤ 2 ^ 33 ∧ (∀ k, i ≤ k → s.1.digit k = r0.digit k) ∧
      (s.1.value i : Int) + s.2 * digit_base ^ i = F i
  have hstep : ∀ i s, a ≤ i → i < a + n → I i s → ∃ s', carry_step term s i = .ok s' ∧ I (i + 1) s' := by
    rintro i ⟨r, c⟩ ha hi ⟨hlen, hcarry, hframe, hsum⟩
    obtain ⟨r', c', hstep, hlen', hcarry', hframe', hdig⟩ :=
      carry_step_spec (hlen ▸ by omega) (hterm r i ha hi hframe hlen) (ht i) hcarry
    refine ⟨_, hstep, hlen'.trans hlen, hcarry', fun k hk => ?_, ?_⟩
    · rw [hframe' k (by omega), hframe k (by omega)]
    · have hlo : r'.value i = r.value i := value_congr fun k hk => hframe' k (by omega)
      rw [hF i ha hi, ← hsum, value_succ_int, hlo]
      linear_combination (digit_base : Int) ^ i * hdig
  obtain ⟨⟨r, c⟩, hrun, hinv⟩ := foldlM_range'_spec _ I a n hstep (r0, c0) ⟨rfl, hc, fun _ _ => rfl, hinit⟩
  exact ⟨r, c, hrun, hinv⟩

end

variable {x : Operand} {x0 y r0 : Uint32List} {m n : Nat}

/-- An operand is read before its digits are overwritten. -/
lemma Operand.read_eq {r : Uint32List} {i : Nat} (hi : i < (x.contents r0).length)
    (hsame : r.digit i = r0.digit i) (hlen : r.length = r0.length) : x.read r i = .ok ((x.contents r0).digit i) := by
  cases x with
  | array digits => exact read_eq hi
  | result =>
    have hread : r.read i = .ok (r.digit i) := read_eq (hlen ▸ hi)
    rwa [hsame] at hread

lemma abs_digit_le (digits : Uint32List) (i : Nat) : |(digits.digit i : Int)| ≤ 2 ^ 32 := by
  have hlt : digits.digit i < 2 ^ 32 := digits.digit_lt i
  rw [abs_le]
  omega

/-- What the loops leave is the exact sum or difference, whose part that is beyond the
places of the operands is in the carry. -/
lemma abs_loops_spec (op : Int → Int → Int) (s : Int) (hop : ∀ a b, op a b = a + s * b) (hs : |s| ≤ 1)
    (hx0 : x.contents r0 = x0) (hnm : n ≤ m) (hn : 0 < n) (hx : m ≤ x0.length) (hy : n ≤ y.length) (hr : m ≤ r0.length)
    : ∃ r c, abs_loops op x m y n r0 = .ok (r, c) ∧ r.length = r0.length ∧ (∀ k, m ≤ k → r.digit k = r0.digit k) ∧
    (r.value m : Int) + c * digit_base ^ m = x0.value m + s * y.value n := by
  subst hx0
  have hterm1 : ∀ r i, 0 ≤ i → i < 0 + n → (∀ k, i ≤ k → r.digit k = r0.digit k) → r.length = r0.length →
      (do return op (← x.read r i : Nat) (← y.read i : Nat)) = Except.ok ((x.contents r0).digit i + s * y.digit i) := by
    intro r i _ hi hframe hlen
    rw [Operand.read_eq (by omega) (hframe i le_rfl) hlen, ok_bind, read_eq (by omega), ok_bind, hop, pure_eq_ok]
  have hbound : ∀ i, |(x.contents r0).digit i + s * y.digit i| ≤ 2 ^ 33 := by
    intro i
    have hxi := abs_digit_le (x.contents r0) i
    have hyi := mul_le_mul hs (abs_digit_le y i) (abs_nonneg _) zero_le_one
    rw [← abs_mul] at hyi
    have htriangle := abs_add_le ((x.contents r0).digit i : Int) (s * y.digit i)
    linarith
  obtain ⟨r1, c1, hfst, hlen1, hcarry1, hframe1, hsum1⟩ :=
    carry_loop_spec (fun i => (x.contents r0).value i + s * y.value i) r0 0 0 n (by omega) hterm1 hbound (by simp)
      (fun i _ _ => by rw [value_succ_int, value_succ_int]; ring) (by simp [Uint32List.value])
  rw [Nat.zero_add] at hframe1 hsum1
  have hterm2 : ∀ r i, n ≤ i → i < n + (m - n) → (∀ k, i ≤ k → r.digit k = r1.digit k) → r.length = r1.length →
      (do return (← x.read r i : Nat)) = Except.ok ((x.contents r0).digit i : Int) := by
    intro r i hi _ hframe hlen
    have hsame : r.digit i = r0.digit i := by rw [hframe i le_rfl, hframe1 i hi]
    rw [Operand.read_eq (by omega) hsame (hlen.trans hlen1), ok_bind, pure_eq_ok]
  obtain ⟨r2, c2, hsnd, hlen2, -, hframe2, hsum2⟩ :=
    carry_loop_spec (fun i => (x.contents r0).value i + s * y.value n) r1 c1 n (m - n) (by omega) hterm2
      (fun i => (abs_digit_le _ i).trans (by norm_num)) hcarry1 (fun i _ _ => by rw [value_succ_int]; ring) hsum1
  rw [Nat.add_sub_of_le hnm] at hframe2 hsum2
  refine ⟨r2, c2, ?_, hlen2.trans hlen1, fun k hk => ?_, hsum2⟩
  · have hchk : check (decide (n ≤ m ∧ 0 < n)) = .ok () := by rw [decide_eq_true ⟨hnm, hn⟩, check_true]
    rw [abs_loops, hchk, ok_bind, hfst, ok_bind, hsnd]
  · rw [hframe2 k hk, hframe1 k (by omega)]

/-- The carry is what the sum has beyond the places of its digits. -/
lemma carry_eq_ediv {r : Uint32List} {c w : Int} (h : (r.value m : Int) + c * digit_base ^ m = w) :
    c = w / digit_base ^ m := by
  have hlo : (r.value m : Int) < digit_base ^ m := by exact_mod_cast r.value_lt m
  have hpos : (0 : Int) < digit_base ^ m := by positivity
  rw [← h, add_mul_ediv_right _ _ hpos.ne', ediv_eq_zero_of_lt (by positivity) hlo, zero_add]

lemma abs_add_spec (hx0 : x.contents r0 = x0) (hnm : n ≤ m) (hn : 0 < n) (hx : m ≤ x0.length) (hy : n ≤ y.length)
    (hr : m < r0.length) : ∃ r, abs_add x m y n r0 = .ok r ∧ r.length = r0.length ∧
    (∀ k, m < k → r.digit k = r0.digit k) ∧ r.value (m + 1) = x0.value m + y.value n := by
  obtain ⟨r, c, hloops, hlen, hframe, hsum⟩ :=
    abs_loops_spec (· + ·) 1 (fun a b => by ring) (by simp) hx0 hnm hn hx hy hr.le
  have hxv : (x0.value m : Int) < digit_base ^ m := by exact_mod_cast x0.value_lt m
  have hyv : (y.value n : Int) < digit_base ^ m := by
    exact_mod_cast (y.value_lt n).trans_le (Nat.pow_le_pow_right (by norm_num) hnm)
  have hpos : (0 : Int) < digit_base ^ m := by positivity
  have hc0 : 0 ≤ c := by
    rw [carry_eq_ediv hsum]
    positivity
  have hc2 : c < 2 := by
    rw [carry_eq_ediv hsum, Int.ediv_lt_iff_lt_mul hpos]
    linarith
  lift c to Nat using hc0
  obtain ⟨r', hwr, hlen', hdig⟩ := write_eq (hlen ▸ hr) (show c < 2 ^ 32 by omega)
  refine ⟨r', by rw [abs_add, hloops, ok_bind]; exact hwr, hlen'.trans hlen, fun k hk => ?_, ?_⟩
  · rw [hdig, update_of_ne (by omega), hframe k hk.le]
  · have hlo : r'.value m = r.value m := by
      rw [Uint32List.value, hdig, positional.value_update_of_le _ le_rfl, Uint32List.value]
    have hval := value_succ_int r' m
    rw [hlo, hdig, update_self, hsum] at hval
    linarith

/-- The difference has no carry when the first number is not the smaller one. -/
lemma abs_sub_spec (hx0 : x.contents r0 = x0) (hnm : n ≤ m) (hn : 0 < n) (hx : m ≤ x0.length) (hy : n ≤ y.length)
    (hr : m ≤ r0.length) (hle : y.value n ≤ x0.value m) : ∃ r, abs_sub x m y n r0 = .ok r ∧ r.length = r0.length ∧
    (∀ k, m ≤ k → r.digit k = r0.digit k) ∧ r.value m + y.value n = x0.value m := by
  obtain ⟨r, c, hloops, hlen, hframe, hsum⟩ :=
    abs_loops_spec (· - ·) (-1) (fun a b => by ring) (by simp) hx0 hnm hn hx hy hr
  have hxv : (x0.value m : Int) < digit_base ^ m := by exact_mod_cast x0.value_lt m
  have hc : c = 0 := by
    rw [carry_eq_ediv hsum]
    exact ediv_eq_zero_of_lt (by omega) (by linarith)
  refine ⟨r, by rw [abs_sub, hloops]; rfl, hlen, hframe, ?_⟩
  rw [hc] at hsum
  omega

end dart.bigint
