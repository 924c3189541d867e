import DartVM.BigInt.Ring

namespace dart.bigint
open loops Uint32List Function Operand Nat positional

def Operand.is_result : Operand → Bool
  | .array _ => false
  | .result => true

/-- The leading zero for 64-bit processing. -/
def clear_leading (used : Nat) (digits : Uint32List) : Checked Uint32List :=
  if used % 2 = 1 then digits.write used 0 else .ok digits

/-- Clears the digits below place `n`, from the most significant one on. -/
def clear_digits (n : Nat) (digits : Uint32List) : Checked Uint32List :=
  (List.range n).reverse.foldlM (fun digits i => digits.write i 0) digits

section
variable (x_digits : Operand) (x_used n : Nat)

/-- `resultDigits[0..resultUsed-1] = xDigits[0..xUsed-1] << n*_digitBits`, and
`resultUsed`. -/
def dl_shift_digits (result_digits : Uint32List) : Checked (Uint32List × Nat) :=
  if x_used = 0 then
    .ok (result_digits, 0)
  else if n = 0 ∧ x_digits.is_result then
    .ok (result_digits, x_used)
  else do
    let result_used := x_used + n
    check (result_used + (result_used &&& 1) ≤ result_digits.length)
    let result_digits ← (List.range x_used).reverse.foldlM
      (fun result i => do result.write (i + n) (← x_digits.read result i : Nat)) result_digits
    let result_digits ← clear_digits n result_digits
    let result_digits ← clear_leading result_used result_digits
    return (result_digits, result_used)

/-- One iteration of `_lsh`: the upper bits of a digit join the carry. -/
def lsh_step (digit_shift bit_shift : Nat) (state : Uint32List × Nat) (i : Nat) : Checked (Uint32List × Nat) := do
  let carry_bit_shift := digit_bits - bit_shift
  let bit_mask := (1 <<< carry_bit_shift) - 1
  let digit ← x_digits.read state.1 i
  let result_digits ← state.1.write (i + digit_shift + 1) ((digit >>> carry_bit_shift) ||| state.2 : Nat)
  return (result_digits, (digit &&& bit_mask) <<< bit_shift)

/-- `resultDigits[ds..xUsed+ds] = xDigits[0..xUsed-1] << (n % _digitBits)` where
`ds = n ~/ _digitBits`. -/
def lsh (result_digits : Uint32List) : Checked Uint32List := do
  check (0 < x_used)
  let digit_shift := n / digit_bits
  let (result_digits, carry) ← (List.range x_used).reverse.foldlM (lsh_step x_digits digit_shift (n % digit_bits))
    (result_digits, 0)
  result_digits.write digit_shift (carry : Nat)

/-- Drops the most significant digit if it is zero. -/
def clamp (used : Nat) (digits : Uint32List) : Checked (Uint32List × Nat) := do
  if (← digits.read (used - 1)) = 0 then
    return (digits, used - 1)
  else
    return (← clear_leading used digits, used)

/-- `resultDigits[0..resultUsed-1] = xDigits[0..xUsed-1] << n`, and `resultUsed`. -/
def l_shift_digits (result_digits : Uint32List) : Checked (Uint32List × Nat) :=
  let digits_shift := n / digit_bits
  if n % digit_bits = 0 then
    dl_shift_digits x_digits x_used digits_shift result_digits
  else do
    let result_used := x_used + digits_shift + 1
    check (result_used + 2 - (result_used &&& 1) ≤ result_digits.length)
    let result_digits ← lsh x_digits x_used n result_digits
    let result_digits ← clear_digits digits_shift result_digits
    clamp result_used result_digits

/-- One iteration of `_rsh`: the lower bits of a digit join the upper bits of the one before. -/
def rsh_step (digits_shift bit_shift : Nat) (state : Uint32List × Nat) (i : Nat) : Checked (Uint32List × Nat) := do
  let carry_bit_shift := digit_bits - bit_shift
  let bit_mask := (1 <<< bit_shift) - 1
  let digit ← x_digits.read state.1 (i + digits_shift + 1)
  let result_digits ← state.1.write i (((digit &&& bit_mask) <<< carry_bit_shift) ||| state.2 : Nat)
  return (result_digits, digit >>> bit_shift)

variable (result_digits : Uint32List)

/-- `resultDigits[0..resultUsed-1] = xDigits[0..xUsed-1] >> n`. -/
def rsh : Checked Uint32List := do
  check (0 < x_used)
  let digits_shift := n / digit_bits
  let bit_shift := n % digit_bits
  let carry := (← x_digits.read result_digits digits_shift) >>> bit_shift
  let last := x_used - digits_shift - 1
  let (result_digits, carry) ← (List.range last).foldlM (rsh_step x_digits digits_shift bit_shift) (result_digits, carry)
  result_digits.write last (carry : Nat)

/-- `resultDigits[0..resultUsed-1] = xDigits[0..xUsed-1] >> n*_digitBits`, and
`resultUsed`. -/
def dr_shift_digits : Checked (Uint32List × Nat) :=
  if x_used ≤ n then
    .ok (result_digits, 0)
  else do
    let result_used := x_used - n
    check (result_used + (result_used &&& 1) ≤ result_digits.length)
    let result_digits ← (List.range result_used).foldlM
      (fun result i => do result.write i (← x_digits.read result (i + n) : Nat)) result_digits
    let result_digits ← clear_leading result_used result_digits
    return (result_digits, result_used)

/-- `resultDigits[0..resultUsed-1] = xDigits[0..xUsed-1] >> n`, and `resultUsed`. -/
def r_shift_digits : Checked (Uint32List × Nat) :=
  let digit_shift := n / digit_bits
  if n % digit_bits = 0 then
    dr_shift_digits x_digits x_used digit_shift result_digits
  else if x_used ≤ digit_shift then
    .ok (result_digits, 0)
  else do
    let result_used := x_used - digit_shift
    check (result_used + 1 + (result_used + 1 &&& 1) ≤ result_digits.length)
    let result_digits ← rsh x_digits x_used n result_digits
    clamp result_used result_digits

end

/-- The loop `while (--i >= 0)` that copies the digits from place `n - 1` down. -/
def copy_digits (n : Nat) (digits result_digits : Uint32List) : Checked Uint32List :=
  (List.range n).reverse.foldlM
    (fun (result : Uint32List) i => do result.write i (← (Operand.array digits).read result i : Nat)) result_digits

section
variable {r0 : Uint32List} {x : Operand} {x0 : Uint32List} {m n : Nat}

lemma clear_leading_spec {used : Nat} (h : used + used % 2 ≤ r0.length) : ∃ r, clear_leading used r0 = .ok r ∧
    r.length = r0.length ∧ (used % 2 = 1 → r.digit used = 0) ∧ ∀ k, k ≠ used → r.digit k = r0.digit k := by
  by_cases hodd : used % 2 = 1
  · obtain ⟨r, hr, hlen, hdig⟩ := write_eq (show used < r0.length by omega) (show 0 < digit_base by decide)
    refine ⟨r, by rw [clear_leading, if_pos hodd]; exact hr, hlen, fun _ => ?_, fun k hk => ?_⟩
    · rw [hdig, update_self]
    · rw [hdig, update_of_ne hk]
  · exact ⟨r0, if_neg hodd, rfl, fun h => absurd h hodd, fun _ _ => rfl⟩

/-- Zeros are written to some places. -/
lemma write_zeros_spec {places : List Nat} (h : ∀ i ∈ places, i < r0.length) :
    ∃ r, places.foldlM (fun (digits : Uint32List) i => digits.write i 0) r0 = Except.ok r ∧ r.length = r0.length ∧
      (∀ k ∈ places, r.digit k = 0) ∧ ∀ k, k ∉ places → r.digit k = r0.digit k := by
  induction places generalizing r0 with
  | nil => exact ⟨r0, rfl, rfl, by simp, fun _ _ => rfl⟩
  | cons i places ih =>
    obtain ⟨r1, hwr, hlen1, hdig⟩ := write_eq (h i (.head _)) (show 0 < digit_base by decide)
    obtain ⟨r, hrun, hlen, h0, hframe⟩ := ih fun j hj => hlen1 ▸ h j (.tail _ hj)
    refine ⟨r, by rw [List.foldlM_cons, ← hrun]; exact congrArg (· >>= _) hwr, hlen.trans hlen1, ?_, fun k hk => ?_⟩
    · refine List.forall_mem_cons.mpr ⟨?_, h0⟩
      by_cases hi : i ∈ places
      · exact h0 i hi
      · rw [hframe i hi, hdig, update_self]
    · rw [List.mem_cons, not_or] at hk
      rw [hframe k hk.2, hdig, update_of_ne hk.1]

lemma clear_digits_spec {n : Nat} (h : n ≤ r0.length) : ∃ r, clear_digits n r0 = .ok r ∧ r.length = r0.length ∧
    (∀ k, k < n → r.digit k = 0) ∧ ∀ k, n ≤ k → r.digit k = r0.digit k := by
  have hmem (k : Nat) : k ∈ (List.range n).reverse ↔ k < n := by simp
  obtain ⟨r, hr, hlen, h0, hframe⟩ := write_zeros_spec fun i hi => ((hmem i).mp hi).trans_le h
  exact ⟨r, hr, hlen, fun k hk => h0 k ((hmem k).mpr hk), fun k hk => hframe k (by simpa using hk)⟩

lemma two_pow_eq (n : Nat) : 2 ^ n = digit_base ^ (n / 32) * 2 ^ (n % 32) := by
  rw [← pow_mul, ← pow_add, div_add_mod]

/-- All digits below a place are shifted out. -/
lemma value_lt_two_pow (h : m ≤ n / 32) : x0.value m < 2 ^ n := by
  rw [two_pow_eq]
  exact ((x0.value_lt m).trans_le (Nat.pow_le_pow_right (by norm_num) h)).trans_le
    (Nat.le_mul_of_pos_right _ (by positivity))

/-- The copying loop of a shift to the left starts with the most significant digit, so that
no digit is overwritten before it is copied. -/
lemma copy_up_spec (hx0 : x.contents r0 = x0) (hx : m ≤ x0.length) (hr : m + n ≤ r0.length) :
    ∃ r, (List.range m).reverse.foldlM
        (fun (result : Uint32List) i => do result.write (i + n) (← x.read result i : Nat)) r0 = Except.ok r ∧
      r.length = r0.length ∧ (∀ k, k < m → r.digit (n + k) = x0.digit k) ∧
      ∀ k, k < n ∨ m + n ≤ k → r.digit k = r0.digit k := by
  subst hx0
  let I : Nat → Uint32List → Prop := fun i r =>
    r.length = r0.length ∧ (∀ k, i ≤ k → k < m → r.digit (n + k) = (x.contents r0).digit k) ∧
      ∀ k, k < n + i ∨ m + n ≤ k → r.digit k = r0.digit k
  have hstep : ∀ i r, i < m → I (i + 1) r →
      ∃ r', (do write r (i + n) (← x.read r i : Nat)) = Except.ok r' ∧ I i r' := by
    rintro i r hi ⟨hlen, hcopy, hframe⟩
    obtain ⟨r', hr', hlen', hdig⟩ := write_eq (show i + n < r.length by omega) ((x.contents r0).digit_lt i)
    refine ⟨r', ?_, hlen'.trans hlen, fun k hk hkm => ?_, fun k hk => ?_⟩
    · rw [read_eq (by omega) (hframe i (by omega)) hlen, ok_bind, hr']
    · by_cases hki : k = i
      · rw [hki, hdig, add_comm n, update_self]
      · rw [hdig, update_of_ne (by omega), hcopy k (by omega) hkm]
    · rw [hdig, update_of_ne (by omega), hframe k (by omega)]
  obtain ⟨r, hr, hlen, hcopy, hframe⟩ := foldlM_reverse_range_spec _ I m hstep r0
    ⟨rfl, fun k hk hkm => absurd hkm (by omega), fun _ _ => rfl⟩
  exact ⟨r, hr, hlen, fun k hk => hcopy k (zero_le k) hk, hframe⟩

/-- The digits are copied together with the leading zero. -/
lemma copy_digits_spec {digits : Uint32List} (h : Padded digits m) (heven : r0.length % 2 = 0) (hr : m ≤ r0.length) :
    ∃ r, copy_digits (m + (m &&& 1)) digits r0 = .ok r ∧ r.length = r0.length ∧ Padded r m ∧
      r.value m = digits.value m := by
  have hlength := h.even_length
  have hle := h.used_le
  obtain ⟨r, hcopy, hlen, hcopied, -⟩ := copy_up_spec (n := 0) (m := m + m % 2)
    (show contents (.array digits) r0 = digits from rfl) (by omega) (by omega)
  simp only [zero_add] at hcopied
  refine ⟨r, by rwa [and_one_is_mod], hlen, ⟨by omega, by omega, fun hodd => ?_⟩, ?_⟩
  · rw [hcopied m (by omega)]
    exact h.leading_zero hodd
  · exact value_congr fun k hk => hcopied k (by omega)

lemma dl_shift_digits_spec (hx0 : x.contents r0 = x0) (hm : 0 < m) (hx : m ≤ x0.length)
    (hr : m + n + (m + n) % 2 ≤ r0.length) : ∃ r, dl_shift_digits x m n r0 = .ok (r, m + n) ∧ r.length = r0.length ∧
      r.value (m + n) = x0.value m * digit_base ^ n ∧ ∀ k, m + n < k → r.digit k = r0.digit k := by
  by_cases hsame : n = 0 ∧ x.is_result = true
  · refine ⟨r0, ?_, rfl, ?_, fun _ _ => rfl⟩
    · rw [dl_shift_digits, if_neg hm.ne', if_pos hsame, hsame.1, add_zero]
    · obtain ⟨rfl, hres⟩ := hsame
      cases x with
      | array digits => cases hres
      | result => rw [← hx0, add_zero, pow_zero, mul_one, contents]
  obtain ⟨r1, hcopy, hlen1, hcopied, hframe1⟩ := copy_up_spec (n := n) hx0 hx (by omega)
  obtain ⟨r2, hclear, hlen2, h0, hframe2⟩ := clear_digits_spec (show n ≤ r1.length by omega)
  obtain ⟨r3, hlead, hlen3, -, hframe3⟩ := clear_leading_spec (show m + n + (m + n) % 2 ≤ r2.length by omega)
  refine ⟨r3, ?_, by omega, ?_, fun k hk => ?_⟩
  · have hchk : m + n + (m + n &&& 1) ≤ r0.length := by rwa [and_one_is_mod]
    simp only [dl_shift_digits, if_neg hm.ne', if_neg hsame, hchk, decide_true, check_true, ok_bind, hcopy, hclear,
      hlead, pure_eq_ok]
  · have hlo : r3.value n = 0 := value_eq_zero fun k hk => by rw [hframe3 k (by omega), h0 k hk]
    have hhi : r3.segment n m = x0.value m := value_congr fun k hk => by
      rw [hframe3 _ (by omega), hframe2 _ (by omega), hcopied k hk]
    rw [Nat.add_comm m, Uint32List.value_add, hlo, hhi, Nat.zero_add, Nat.mul_comm]
  · rw [hframe3 k (by omega), hframe2 k (by omega), hframe1 k (by omega)]

/-- A digit that is shifted has bits in two digits. -/
lemma shifted_digit {d t : Nat} (s : Nat) (ht : s + t = 32) : d / 2 ^ t * digit_base + d % 2 ^ t * 2 ^ s = d * 2 ^ s := by
  have hbase : digit_base = 2 ^ t * 2 ^ s := by rw [← pow_add, add_comm, ht]
  rw [hbase, ← mul_assoc, ← add_mul, div_add_mod']

/-- The bits that join the carry are below its bits. -/
lemma join_bits {s t h c : Nat} (ht : s + t = 32) (hh : h < 2 ^ s) (hc : c < 2 ^ t) :
    h ||| c <<< s = c * 2 ^ s + h ∧ c * 2 ^ s + h < digit_base := by
  constructor
  · rw [Nat.or_comm, ← shiftLeft_add_eq_or_of_lt hh, shiftLeft_eq]
  · have hle : (c + 1) * 2 ^ s ≤ 2 ^ t * 2 ^ s := mul_le_mul_right _ hc
    rw [← pow_add, add_comm t, ht, add_mul] at hle
    have hbase : digit_base = 2 ^ 32 := rfl
    omega

lemma and_mask (d t : Nat) : d &&& ((1 <<< t) - 1) = d % 2 ^ t := by
  rw [one_shiftLeft, and_two_pow_sub_one_eq_mod]

lemma lsh_spec (hx0 : x.contents r0 = x0) (hm : 0 < m) (hx : m ≤ x0.length) (hr : n / 32 + m < r0.length) :
    ∃ r, lsh x m n r0 = .ok r ∧ r.length = r0.length ∧ r.segment (n / 32) (m + 1) = x0.value m * 2 ^ (n % 32) ∧
      ∀ k, k < n / 32 ∨ n / 32 + m < k → r.digit k = r0.digit k := by
  subst hx0
  generalize hs : n % 32 = s
  generalize hds : n / 32 = ds at hr ⊢
  have hs32 : s + (32 - s) = 32 := by omega
  let I : Nat → Uint32List × Nat → Prop := fun i state =>
    state.1.length = r0.length ∧ (∃ c, c < 2 ^ (32 - s) ∧ state.2 = c <<< s) ∧
      state.1.segment (ds + i + 1) (m - i) * digit_base + state.2 = (x.contents r0).segment i (m - i) * 2 ^ s ∧
      ∀ k, k ≤ ds + i ∨ ds + m < k → state.1.digit k = r0.digit k
  have hstep : ∀ i state, i < m → I (i + 1) state → ∃ state', lsh_step x ds s state i = .ok state' ∧ I i state' := by
    rintro i ⟨r, carry⟩ hi ⟨hlen, ⟨c, hc, hcarry⟩, hval, hframe⟩
    simp only at hlen hcarry hval hframe
    have hd := (x.contents r0).digit_lt i
    generalize hdig : (x.contents r0).digit i = d at hd
    have hhi : d / 2 ^ (32 - s) < 2 ^ s := Nat.div_lt_of_lt_mul (by rwa [← pow_add, Nat.add_comm, hs32])
    obtain ⟨hjoin, hlt⟩ := join_bits hs32 hhi hc
    obtain ⟨r', hr', hlen', hdig'⟩ := write_eq (show i + ds + 1 < r.length by omega) hlt
    refine ⟨(r', (d % 2 ^ (32 - s)) <<< s), ?_, hlen'.trans hlen, ⟨_, mod_lt _ (by positivity), rfl⟩, ?_,
      fun k hk => ?_⟩
    · simp only [lsh_step, read_eq (show i < (x.contents r0).length by omega) (hframe i (by omega)) hlen,
        ok_bind, hdig, shiftRight_eq_div_pow, hcarry, hjoin, hr', and_mask, pure_eq_ok]
    · have hrest : r'.segment (ds + i + 1 + 1) (m - (i + 1)) = r.segment (ds + (i + 1) + 1) (m - (i + 1)) :=
        value_congr fun k _ => by rw [hdig', update_of_ne (by omega), add_assoc ds]
      have hsplit := shifted_digit (d := d) s hs32
      rw [hcarry, shiftLeft_eq] at hval
      rw [show m - i = m - (i + 1) + 1 by omega, segment_succ', segment_succ', hrest, hdig', hdig, show ds + i + 1 =
        i + ds + 1 by omega, update_self, shiftLeft_eq, add_mul d, ← hsplit, mul_assoc digit_base, ← hval]
      ring
    · rw [hdig', update_of_ne (by omega), hframe k (by omega)]
  obtain ⟨⟨r, carry⟩, hrun, hlen, ⟨c, hc, hcarry⟩, hval, hframe⟩ := foldlM_reverse_range_spec _ I m hstep (r0, 0)
    ⟨rfl, ⟨0, by positivity, by simp⟩, by simp [Uint32List.segment], fun _ _ => rfl⟩
  simp only at hlen hcarry hval hframe
  have hlt : carry < digit_base := by
    obtain ⟨-, hlt⟩ := join_bits hs32 (by positivity) hc
    rwa [hcarry, shiftLeft_eq]
  obtain ⟨r', hr', hlen', hdig'⟩ := write_eq (show ds < r.length by omega) hlt
  refine ⟨r', ?_, hlen'.trans hlen, ?_, fun k hk => ?_⟩
  · simp only [lsh, check_bind hm, ok_bind, hds, hs, hrun, hr']
  · have hrest : r'.segment (ds + 1) m = r.segment (ds + 1) m := value_congr fun k _ => by
      rw [hdig', update_of_ne (by omega)]
    rw [Nat.add_zero, Nat.sub_zero, segment_zero_left] at hval
    rw [segment_succ', hrest, hdig', update_self, ← hval]
    ring
  · rw [hdig', update_of_ne (by omega), hframe k (by omega)]

lemma clamp_spec {u : Nat} (hu : 0 < u) (h : u + u % 2 ≤ r0.length) :
    ∃ r v, clamp u r0 = .ok (r, v) ∧ r.length = r0.length ∧ r.value v = r0.value u ∧ v ≤ u ∧ u ≤ v + 1 ∧
      (v = u → r0.digit (u - 1) ≠ 0) ∧ (v % 2 = 1 → r.digit v = 0) ∧ ∀ k, k ≠ u → r.digit k = r0.digit k := by
  have hread : r0.read (u - 1) = .ok (r0.digit (u - 1)) := read_eq (by omega)
  by_cases h0 : r0.digit (u - 1) = 0
  · refine ⟨r0, u - 1, by rw [clamp, hread, ok_bind, if_pos h0, pure_eq_ok], rfl, ?_, by omega, by omega,
      fun h => absurd h (by omega), fun _ => h0, fun _ _ => rfl⟩
    exact (value_eq_of_zero (by omega) fun k hk hku => by rwa [show k = u - 1 by omega]).symm
  obtain ⟨r, hr, hlen, hlead, hframe⟩ := clear_leading_spec h
  refine ⟨r, u, by rw [clamp, hread, ok_bind, if_neg h0, hr, ok_bind, pure_eq_ok], hlen, ?_, le_rfl, by omega,
    fun _ => h0, hlead, hframe⟩
  exact value_congr fun k hk => hframe k (by omega)

variable (hx0 : x.contents r0 = x0)
include hx0

lemma l_shift_digits_spec (hm : 0 < m) (hx : m ≤ x0.length) (hr : m + n / 32 + (m + n / 32) % 2 ≤ r0.length)
    (hr' : n % 32 ≠ 0 → m + n / 32 + 1 + 2 - (m + n / 32 + 1) % 2 ≤ r0.length) :
    ∃ r u, l_shift_digits x m n r0 = .ok (r, u) ∧ r.length = r0.length ∧ r.value u = x0.value m * 2 ^ n ∧
      m + n / 32 ≤ u ∧ u ≤ m + n / 32 + 1 ∧ (n % 32 = 0 → u = m + n / 32) ∧
      (u = m + n / 32 + 1 → digit_base ^ (m + n / 32) ≤ r.value u) ∧
      ∀ k, m + n / 32 + 1 < k → r.digit k = r0.digit k := by
  by_cases hbits : n % 32 = 0
  · obtain ⟨r, hshift, hlen, hval, hframe⟩ := dl_shift_digits_spec hx0 hm hx hr
    refine ⟨r, m + n / 32, by simp only [l_shift_digits, if_pos hbits, hshift], hlen, ?_, le_rfl, by omega,
      fun _ => rfl, fun h => absurd h (by omega), fun k hk => hframe k (by omega)⟩
    rw [hval, two_pow_eq n, hbits, pow_zero, Nat.mul_one]
  have hroom := hr' hbits
  obtain ⟨r1, hlsh, hlen1, hval1, hframe1⟩ := lsh_spec (n := n) hx0 hm hx (by omega)
  obtain ⟨r2, hclear, hlen2, h0, hframe2⟩ := clear_digits_spec (show n / 32 ≤ r1.length by omega)
  obtain ⟨r3, u, hclamp, hlen3, hval3, hle, hge, htop, -, hframe3⟩ :=
    clamp_spec (show 0 < m + n / 32 + 1 by omega) (show _ ≤ r2.length by omega)
  have hval2 : r2.value (m + n / 32 + 1) = x0.value m * 2 ^ n := by
    have hlo : r2.value (n / 32) = 0 := value_eq_zero h0
    have hhi : r2.segment (n / 32) (m + 1) = r1.segment (n / 32) (m + 1) := value_congr fun k _ => hframe2 _ (by omega)
    rw [show m + n / 32 + 1 = n / 32 + (m + 1) by omega, Uint32List.value_add, hlo, hhi, hval1, two_pow_eq n]
    ring
  refine ⟨r3, u, ?_, by omega, hval3.trans hval2, by omega, hle, fun h => absurd h hbits, fun h => ?_, fun k hk => ?_⟩
  · have hchk : m + n / 32 + 1 + 2 - (m + n / 32 + 1 &&& 1) ≤ r0.length := by rwa [and_one_is_mod]
    simp only [l_shift_digits, if_neg hbits, hchk, decide_true, check_true, ok_bind, hlsh, hclear, hclamp]
  · rw [hval3]
    exact pow_le_value (by omega) (htop h)
  · rw [hframe3 k (by omega), hframe2 k (by omega), hframe1 k (by omega)]

lemma rsh_spec (hm : n / 32 < m) (hx : m ≤ x0.length) (hr : m - n / 32 ≤ r0.length) :
    ∃ r, rsh x m n r0 = .ok r ∧ r.length = r0.length ∧ r.value (m - n / 32) = x0.value m / 2 ^ n ∧
      ∀ k, m - n / 32 ≤ k → r.digit k = r0.digit k := by
  subst hx0
  have hquot : (x.contents r0).value m / 2 ^ n = (x.contents r0).segment (n / 32) (m - n / 32) / 2 ^ (n % 32) := by
    rw [two_pow_eq n, ← Nat.div_div_eq_div_mul]
    exact congrArg (· / 2 ^ (n % 32)) (value_div_pow (digit_lt _) hm.le)
  rw [hquot]
  generalize hs : n % 32 = s
  generalize hds : n / 32 = ds at hr hm ⊢
  have hs32 : 32 - s + s = 32 := by omega
  let I : Nat → Uint32List × Nat → Prop := fun i state =>
    state.1.length = r0.length ∧ state.2 < 2 ^ (32 - s) ∧
      state.1.value i + state.2 * digit_base ^ i = (x.contents r0).segment ds (i + 1) / 2 ^ s ∧
      ∀ k, i ≤ k → state.1.digit k = r0.digit k
  have hshifted {d : Nat} (hd : d < digit_base) : d / 2 ^ s < 2 ^ (32 - s) :=
    Nat.div_lt_of_lt_mul (by rwa [← pow_add, Nat.add_comm, hs32])
  have hstep : ∀ i state, i < m - ds - 1 → I i state → ∃ state', rsh_step x ds s state i = .ok state' ∧ I (i + 1) state' := by
    rintro i ⟨r, carry⟩ hi ⟨hlen, hcarry, hval, hframe⟩
    simp only at hlen hcarry hval hframe
    have hd := (x.contents r0).digit_lt (i + ds + 1)
    generalize hdig : (x.contents r0).digit (i + ds + 1) = d at hd
    have hlo : d % 2 ^ s < 2 ^ s := mod_lt _ (by positivity)
    obtain ⟨hjoin, hlt⟩ := join_bits hs32 hcarry hlo
    rw [Nat.or_comm] at hjoin
    obtain ⟨r', hr', hlen', hdig'⟩ := write_eq (show i < r.length by omega) hlt
    refine ⟨(r', d / 2 ^ s), ?_, hlen'.trans hlen, hshifted hd, ?_, fun k hk => ?_⟩
    · simp only [rsh_step, read_eq (show i + ds + 1 < (x.contents r0).length by omega) (hframe _ (by omega)) hlen,
        ok_bind, hdig, shiftRight_eq_div_pow, hjoin, hr', and_mask, pure_eq_ok]
    · have hrest : r'.value i = r.value i := value_congr fun k hk => by
        rw [hdig', update_of_ne (by omega)]
      have hpow : digit_base ^ (i + 1) = digit_base ^ i * 2 ^ (32 - s) * 2 ^ s := by
        rw [pow_succ, mul_assoc, ← pow_add, hs32]
      have hnext : (x.contents r0).segment ds (i + 1 + 1) / 2 ^ s =
          (x.contents r0).segment ds (i + 1) / 2 ^ s + d * digit_base ^ i * 2 ^ (32 - s) := by
        rw [segment_succ, show ds + (i + 1) = i + ds + 1 by omega, hdig, hpow, ← mul_assoc,
          add_mul_div_right _ _ (by positivity)]
        ring
      have hsplit := shifted_digit (d := d) (32 - s) hs32
      rw [hnext, ← hval, r'.value_succ, hrest, hdig', update_self, mul_right_comm d, ← hsplit, pow_succ]
      ring
    · rw [hdig', update_of_ne (by omega), hframe k (by omega)]
  have hread : x.read r0 ds = .ok ((x.contents r0).digit ds) := read_eq (by omega) rfl rfl
  obtain ⟨⟨r, carry⟩, hrun, hlen, hcarry, hval, hframe⟩ :=
    foldlM_range_spec _ I (m - ds - 1) hstep (r0, (x.contents r0).digit ds / 2 ^ s)
      ⟨rfl, hshifted (Uint32List.digit_lt _ _), by simp [Uint32List.value], fun _ _ => rfl⟩
  simp only at hlen hcarry hval hframe
  have hlt : carry < digit_base := hcarry.trans_le (Nat.pow_le_pow_right (by norm_num) (by omega))
  obtain ⟨r', hr', hlen', hdig'⟩ := write_eq (show m - ds - 1 < r.length by omega) hlt
  refine ⟨r', ?_, hlen'.trans hlen, ?_, fun k hk => ?_⟩
  · simp only [rsh, check_bind (zero_lt_of_lt hm), ok_bind, hds, hs, hread, shiftRight_eq_div_pow, hrun, hr']
  · have hrest : r'.value (m - ds - 1) = r.value (m - ds - 1) := value_congr fun k hk => by
      rw [hdig', update_of_ne (by omega)]
    have hlast : m - ds = m - ds - 1 + 1 := by omega
    rw [hlast, r'.value_succ, hrest, hdig', update_self, hval, ← hlast]
  · rw [hdig', update_of_ne (by omega), hframe k (by omega)]

/-- The copying loop of a shift to the right starts with the least significant digit. -/
lemma copy_down_spec (hx : n + m ≤ x0.length) (hr : m ≤ r0.length) : ∃ r, (List.range m).foldlM
        (fun (result : Uint32List) i => do result.write i (← x.read result (i + n) : Nat)) r0 = Except.ok r ∧
      r.length = r0.length ∧ r.value m = x0.segment n m ∧ ∀ k, m ≤ k → r.digit k = r0.digit k := by
  subst hx0
  let I : Nat → Uint32List → Prop := fun i r =>
    r.length = r0.length ∧ (∀ k, k < i → r.digit k = (x.contents r0).digit (n + k)) ∧
      ∀ k, i ≤ k → r.digit k = r0.digit k
  have hstep : ∀ i r, i < m → I i r →
      ∃ r', (do write r i (← x.read r (i + n) : Nat)) = Except.ok r' ∧ I (i + 1) r' := by
    rintro i r hi ⟨hlen, hcopied, hframe⟩
    obtain ⟨r', hr', hlen', hdig⟩ := write_eq (show i < r.length by omega) ((x.contents r0).digit_lt (i + n))
    refine ⟨r', ?_, hlen'.trans hlen, fun k hk => ?_, fun k hk => ?_⟩
    · rw [read_eq (by omega) (hframe _ (by omega)) hlen, ok_bind, hr']
    · by_cases hki : k = i
      · rw [hki, hdig, update_self, add_comm]
      · rw [hdig, update_of_ne hki, hcopied k (by omega)]
    · rw [hdig, update_of_ne (by omega), hframe k (by omega)]
  obtain ⟨r, hcopy, hlen, hcopied, hframe⟩ := foldlM_range_spec _ I m hstep r0
    ⟨rfl, fun k hk => absurd hk (not_lt_zero k), fun _ _ => rfl⟩
  exact ⟨r, hcopy, hlen, value_congr hcopied, hframe⟩

lemma dr_shift_digits_spec (hx : m ≤ x0.length) (hr : m - n + (m - n) % 2 ≤ r0.length) :
    ∃ r, dr_shift_digits x m n r0 = .ok (r, m - n) ∧ r.length = r0.length ∧
      r.value (m - n) = x0.value m / digit_base ^ n ∧ ((m - n) % 2 = 1 → r.digit (m - n) = 0) := by
  by_cases hle : m ≤ n
  · have hlt := (x0.value_lt m).trans_le (Nat.pow_le_pow_right (by norm_num) hle)
    refine ⟨r0, ?_, rfl, ?_, fun h => absurd h (by omega)⟩
    · rw [dr_shift_digits, if_pos hle, Nat.sub_eq_zero_of_le hle]
    · rw [Nat.sub_eq_zero_of_le hle, div_eq_of_lt hlt]
      rfl
  obtain ⟨r1, hcopy, hlen1, hval1, -⟩ := copy_down_spec (n := n) (m := m - n) hx0 (by omega) (by omega)
  obtain ⟨r2, hlead, hlen2, h0, hframe2⟩ := clear_leading_spec (show m - n + (m - n) % 2 ≤ r1.length by omega)
  refine ⟨r2, ?_, by omega, ?_, h0⟩
  · have hchk : m - n + (m - n &&& 1) ≤ r0.length := by rwa [and_one_is_mod]
    simp only [dr_shift_digits, if_neg hle, hchk, decide_true, check_true, ok_bind, hcopy, hlead, pure_eq_ok]
  · have hsame : r2.value (m - n) = r1.value (m - n) := value_congr fun k hk => hframe2 k (by omega)
    rw [hsame, hval1]
    exact (value_div_pow x0.digit_lt (by omega)).symm

lemma r_shift_digits_spec (hx : m ≤ x0.length) (hr : m - n / 32 + (m - n / 32) % 2 ≤ r0.length)
    (hr' : n % 32 ≠ 0 → m - n / 32 + 1 + (m - n / 32 + 1) % 2 ≤ r0.length) :
    ∃ r u, r_shift_digits x m n r0 = .ok (r, u) ∧ r.length = r0.length ∧ u ≤ m - n / 32 ∧
      r.value u = x0.value m / 2 ^ n ∧ (u % 2 = 1 → r.digit u = 0) := by
  by_cases hbits : n % 32 = 0
  · obtain ⟨r, hshift, hlen, hval, h0⟩ := dr_shift_digits_spec hx0 hx hr
    refine ⟨r, _, by simp only [r_shift_digits, if_pos hbits, hshift], hlen, le_rfl, ?_, h0⟩
    rw [hval, two_pow_eq n, hbits, pow_zero, Nat.mul_one]
  by_cases hle : m ≤ n / 32
  · refine ⟨r0, 0, by simp only [r_shift_digits, if_neg hbits, if_pos hle], rfl, Nat.zero_le _, ?_, by simp⟩
    rw [div_eq_of_lt (value_lt_two_pow hle)]
    rfl
  have hroom := hr' hbits
  obtain ⟨r1, hrsh, hlen1, hval1, -⟩ := rsh_spec hx0 (Nat.lt_of_not_le hle) hx (by omega)
  obtain ⟨r2, u, hclamp, hlen2, hval2, hule, -, -, h0, -⟩ :=
    clamp_spec (show 0 < m - n / 32 by omega) (show _ ≤ r1.length by omega)
  refine ⟨r2, u, ?_, by omega, hule, hval2.trans hval1, h0⟩
  have hchk : m - n / 32 + 1 + (m - n / 32 + 1 &&& 1) ≤ r0.length := by rwa [and_one_is_mod]
  simp only [r_shift_digits, if_neg hbits, if_neg hle, hchk, decide_true, check_true, ok_bind, hrsh, hclamp]

end

namespace BigIntImpl

/-- `_BigIntImpl.one`. -/
def one : BigIntImpl := ⟨false, [1, 0], 1⟩

/-- `_BigIntImpl._minusOne`. -/
def minus_one : BigIntImpl := ⟨true, [1, 0], 1⟩

/-- Whether a digit below place `n` is not zero. -/
def any_digit (digits : Uint32List) : Nat → Checked Bool
  | 0 => .ok false
  | n + 1 => do
    if (← any_digit digits n) then return true else return (← digits.read n) != 0

section
variable (x : BigIntImpl)

/-- `this >> n*_digitBits`. -/
def dr_shift (n : Nat) : Checked BigIntImpl :=
  if x.used = 0 then
    .ok zero
  else if x.used ≤ n then
    .ok (if x.is_negative then minus_one else zero)
  else do
    let result_used := x.used - n
    let result_digits ← (List.range result_used).foldlM
      (fun (result : Uint32List) i => do result.write i (← x.digits.read (i + n) : Nat)) (new_digits result_used)
    let result ← make x.is_negative result_used result_digits
    -- Round down if any bit was shifted out.
    if x.is_negative && (← any_digit x.digits n) then sub result one else return result

/-- `operator >>`. -/
def shift_right (shift_amount : Nat) : Checked BigIntImpl :=
  let digit_shift := shift_amount / digit_bits
  let bit_shift := shift_amount % digit_bits
  if x.is_zero then
    .ok x
  else if bit_shift = 0 then
    dr_shift x digit_shift
  else if x.used ≤ digit_shift then
    .ok (if x.is_negative then minus_one else zero)
  else do
    let result_used := x.used - digit_shift
    let result_digits ← rsh (.array x.digits) x.used shift_amount (new_digits (result_used + 1))
    let result ← make x.is_negative result_used result_digits
    -- Round down if any bit was shifted out.
    if x.is_negative then
      if ((← x.digits.read digit_shift) &&& ((1 <<< bit_shift) - 1)) ≠ 0 then sub result one
      else if (← any_digit x.digits digit_shift) then sub result one
      else return result
    else
      return result

/-- `_dlShift`: `x << n*_digitBits`. -/
def dl_shift (n : Nat) : Checked BigIntImpl :=
  if x.used = 0 then .ok zero else do
    let result_used := x.used + n
    let result_digits ← (List.range x.used).reverse.foldlM
      (fun (result : Uint32List) i => do result.write (i + n) (← (Operand.array x.digits).read result i : Nat))
      (new_digits result_used)
    make x.is_negative result_used result_digits

/-- `operator <<`. -/
def shift_left (shift_amount : Nat) : Checked BigIntImpl :=
  if x.is_zero then .ok x else
    let digit_shift := shift_amount / digit_bits
    if shift_amount % digit_bits = 0 then
      dl_shift x digit_shift
    else do
      -- Need one extra digit to hold bits shifted by bit_shift.
      let result_used := x.used + digit_shift + 1
      -- The 64-bit intrinsic requires one extra pair to work with.
      let result_digits ← lsh (.array x.digits) x.used shift_amount (new_digits (result_used + 1))
      make x.is_negative result_used result_digits

end

lemma valid_one : one.Valid := ⟨⟨by decide, by decide, by decide⟩, by decide, by decide⟩

lemma valid_minus_one : minus_one.Valid := ⟨⟨by decide, by decide, by decide⟩, by decide, by decide⟩

variable {n : Nat} {x : BigIntImpl}

lemma any_digit_spec {digits : Uint32List} (h : n ≤ digits.length) :
    any_digit digits n = .ok (decide (digits.value n ≠ 0)) := by
  induction n with
  | zero => rfl
  | succ n ih =>
    rw [any_digit, ih (by omega), Uint32List.read_eq (by omega), digits.value_succ]
    by_cases hlo : digits.value n = 0
    · by_cases hdig : digits.digit n = 0 <;> simp [hlo, hdig]
    · simp [hlo]

/-- The quotient of an absolute value, with the sign of the number, is rounded down when
bits of a negative number are shifted out. -/
lemma round_down_spec {r : BigIntImpl} (hr : r.Valid)
    (hval : r.value = signed x.is_negative (x.magnitude / 2 ^ n)) {lost : Bool}
    (hlost : lost = (x.is_negative && decide (x.magnitude % 2 ^ n ≠ 0))) :
    ∃ q, (if lost then sub r one else pure r) = Except.ok q ∧ q.Valid ∧ q.value = x.value / 2 ^ n := by
  have hpow : ((2 ^ n : Nat) : Int) = 2 ^ n := by push_cast; rfl
  cases hneg : x.is_negative with
  | false =>
    rw [hneg, Bool.false_and] at hlost
    refine ⟨r, by rw [hlost]; rfl, hr, ?_⟩
    rw [hval, value, hneg, ← hpow]
    exact Int.natCast_div ..
  | true =>
    rw [hneg, Bool.true_and] at hlost
    have hquot : x.value / 2 ^ n = -((x.magnitude / 2 ^ n : Nat) : Int) - (if lost then 1 else 0) := by
      rw [value, hneg, signed, if_pos rfl, ← hpow, Int.neg_ediv, Int.natCast_div, hlost]
      by_cases h0 : x.magnitude % 2 ^ n = 0
      · rw [if_pos (Int.natCast_dvd_natCast.mpr (dvd_of_mod_eq_zero h0)), if_neg (by simpa using h0)]
      · rw [if_neg (fun h => h0 (mod_eq_zero_of_dvd (Int.natCast_dvd_natCast.mp h))), if_pos (by simpa using h0),
          Int.sign_eq_one_of_pos (by positivity)]
    rw [hneg, signed, if_pos rfl] at hval
    cases lost with
    | false => exact ⟨r, rfl, hr, by rw [hval, hquot]; simp⟩
    | true =>
      obtain ⟨q, hq, hok, hdiff⟩ := sub_spec hr valid_one
      refine ⟨q, hq, hok, ?_⟩
      rw [hdiff, hval, hquot]
      rfl

/-- A number that is shifted out as a whole leaves zero or minus one. -/
lemma shifted_out (hx : x.Valid) (h : x.magnitude < 2 ^ n) (h0 : x.used ≠ 0) :
    (if x.is_negative then minus_one else zero).Valid ∧
      (if x.is_negative then minus_one else zero).value = x.value / 2 ^ n := by
  have hpos : x.magnitude ≠ 0 := fun h => h0 (hx.magnitude_eq_zero_iff.mp h)
  have hlt : (x.magnitude : Int) < 2 ^ n := by exact_mod_cast h
  rw [value, value]
  cases x.is_negative with
  | false => exact ⟨valid_zero, (Int.ediv_eq_zero_of_lt (by simp [signed]) (by simpa [signed] using hlt)).symm⟩
  | true =>
    refine ⟨valid_minus_one, ?_⟩
    rw [signed, if_pos rfl, signed, if_pos rfl, show (-(x.magnitude : Int)) = -1 * 2 ^ n + (2 ^ n - x.magnitude) by ring,
      Int.add_comm, Int.add_mul_ediv_right _ _ (by positivity), Int.ediv_eq_zero_of_lt (by omega) (by omega)]
    rfl

lemma magnitude_mod_pow (h : n ≤ x.used) : x.magnitude % digit_base ^ n = x.digits.value n :=
  value_mod_pow x.digits.digit_lt h

lemma dr_shift_spec (hx : x.Valid) (h0 : x.used ≠ 0) (n : Nat) :
    ∃ r, dr_shift x n = .ok r ∧ r.Valid ∧ r.value = x.value / 2 ^ (32 * n) := by
  have hpow : 2 ^ (32 * n) = digit_base ^ n := pow_mul ..
  by_cases hle : x.used ≤ n
  · have hlt : x.magnitude < 2 ^ (32 * n) := value_lt_two_pow (by omega)
    exact ⟨_, by rw [dr_shift, if_neg h0, if_pos hle], shifted_out hx hlt h0⟩
  have hused := hx.used_le
  have hlen := length_new_digits (x.used - n)
  obtain ⟨digits, hcopy, hlen', hval', hframe⟩ := copy_down_spec (n := n) (m := x.used - n)
    (show contents (.array x.digits) (new_digits (x.used - n)) = x.digits from rfl) (by omega) (by omega)
  obtain ⟨r, hr, hok, hval, -⟩ := make_spec x.is_negative (x.used - n) digits (by omega) (by omega)
    (fun _ => by rw [hframe _ le_rfl, digit_new_digits])
  have hquot : digits.value (x.used - n) = x.magnitude / 2 ^ (32 * n) := by
    rw [hval', hpow]
    exact (value_div_pow x.digits.digit_lt (by omega)).symm
  obtain ⟨q, hq, hqok, hqval⟩ := round_down_spec hok (by rw [hval, hquot]) (by rw [hpow, magnitude_mod_pow (by omega)])
  refine ⟨q, ?_, hqok, hqval⟩
  rw [dr_shift, if_neg h0, if_neg hle]
  show ((List.range (x.used - n)).foldlM
    (fun (result : Uint32List) i => do result.write i (← (array x.digits).read result (i + n) : Nat))
    (new_digits (x.used - n)) >>= _) = _
  rw [hcopy, ok_bind, hr, ok_bind, any_digit_spec (by omega), ok_bind, hq]

/-- A shift to the right divides by a power of two and rounds down. -/
lemma shift_right_spec (hx : x.Valid) (n : Nat) :
    ∃ r, shift_right x n = .ok r ∧ r.Valid ∧ r.value = x.value / 2 ^ n := by
  by_cases h0 : x.used = 0
  · refine ⟨x, by simp [shift_right, if_pos (is_zero_iff.mpr h0)], hx, ?_⟩
    rw [hx.value_eq_zero h0, Int.zero_ediv]
  have hne := mt is_zero_iff.mp h0
  by_cases hbits : n % 32 = 0
  · obtain ⟨r, hr, hok, hval⟩ := dr_shift_spec hx h0 (n / 32)
    refine ⟨r, by simp [shift_right, if_neg hne, if_pos hbits, hr], hok, ?_⟩
    rw [hval, show 32 * (n / 32) = n by omega]
  by_cases hle : x.used ≤ n / 32
  · exact ⟨_, by simp [shift_right, if_neg hne, if_neg hbits, if_pos hle], shifted_out hx (value_lt_two_pow hle) h0⟩
  have hused := hx.used_le
  have hlen := length_new_digits (x.used - n / 32 + 1)
  obtain ⟨digits, hrsh, hlen', hquot, hframe⟩ := rsh_spec
    (show contents (.array x.digits) (new_digits (x.used - n / 32 + 1)) = x.digits from rfl) (Nat.lt_of_not_le hle)
    hx.used_le (by omega)
  obtain ⟨r, hr, hok, hval, -⟩ := make_spec x.is_negative (x.used - n / 32) digits (by omega) (by omega)
    (fun _ => by rw [hframe _ le_rfl, digit_new_digits])
  -- The bits shifted out are the digits below and the lower bits of one digit.
  have hlost : x.magnitude % 2 ^ n =
      x.digits.value (n / 32) + digit_base ^ (n / 32) * (x.digits.digit (n / 32) % 2 ^ (n % 32)) := by
    have hdvd : 2 ^ (n % 32) ∣ digit_base := pow_dvd_pow 2 (by omega)
    rw [two_pow_eq n, mod_mul, magnitude_mod_pow (by omega), ← mod_mod_of_dvd _ hdvd]
    congr 2
    exact congrArg (· % 2 ^ (n % 32)) (digit_eq x.digits.digit_lt (by omega))
  have hdecide : (x.is_negative && (decide (x.digits.digit (n / 32) % 2 ^ (n % 32) ≠ 0) ||
      decide (x.digits.value (n / 32) ≠ 0))) = (x.is_negative && decide (x.magnitude % 2 ^ n ≠ 0)) := by
    have hpos : 0 < digit_base ^ (n / 32) := by positivity
    rw [hlost, ← Bool.decide_or]
    congr 2
    simp only [ne_eq, Nat.add_eq_zero_iff, Nat.mul_eq_zero, hpos.ne', false_or, eq_iff_iff]
    tauto
  obtain ⟨q, hq, hqok, hqval⟩ := round_down_spec hok (by rw [hval, hquot]; rfl) hdecide
  refine ⟨q, ?_, hqok, hqval⟩
  simp only [shift_right, if_neg hne, if_neg hbits, if_neg hle, hrsh, ok_bind, hr, read_eq (show n / 32 <
    x.digits.length by omega), any_digit_spec (show n / 32 ≤ x.digits.length by omega), and_mask]
  rw [← hq]
  cases x.is_negative <;> by_cases h1 : x.digits.digit (n / 32) % 2 ^ (n % 32) = 0 <;>
    by_cases h2 : x.digits.value (n / 32) = 0 <;> simp [h1, h2]

lemma signed_mul_pow (s : Bool) (m n : Nat) : signed s (m * 2 ^ n) = signed s m * 2 ^ n := by
  cases s <;> simp [signed]

lemma dl_shift_spec (hx : x.Valid) (n : Nat) :
    ∃ r, dl_shift x n = .ok r ∧ r.Valid ∧ r.value = x.value * 2 ^ (32 * n) := by
  by_cases h0 : x.used = 0
  · exact ⟨zero, if_pos h0, valid_zero, by rw [hx.value_eq_zero h0, Int.zero_mul, value_zero]⟩
  have hused := hx.used_le
  have hlen := length_new_digits (x.used + n)
  obtain ⟨digits, hcopy, hlen', hcopied, hframe⟩ := copy_up_spec (n := n)
    (show Operand.contents (.array x.digits) (new_digits (x.used + n)) = x.digits from rfl) hused (by omega)
  obtain ⟨r, hr, hok, hval, -⟩ := make_spec x.is_negative (x.used + n) digits (by omega) (by omega)
    (fun _ => by rw [hframe _ (.inr le_rfl), digit_new_digits])
  refine ⟨r, by simp [dl_shift, if_neg h0, hcopy, hr], hok, ?_⟩
  have hlo : digits.value n = 0 := positional.value_eq_zero fun k hk => by
    rw [hframe k (.inl hk), digit_new_digits]
  have hhi : digits.segment n x.used = x.magnitude := positional.value_congr hcopied
  rw [hval, Nat.add_comm, Uint32List.value_add, hlo, hhi, Nat.zero_add, value, ← signed_mul_pow, Nat.mul_comm, pow_mul]

lemma shift_left_spec (hx : x.Valid) (n : Nat) : ∃ r, shift_left x n = .ok r ∧ r.Valid ∧ r.value = x.value * 2 ^ n := by
  by_cases h0 : x.used = 0
  · refine ⟨x, by simp [shift_left, if_pos (is_zero_iff.mpr h0)], hx, ?_⟩
    rw [hx.value_eq_zero h0, Int.zero_mul]
  have hne := mt is_zero_iff.mp h0
  by_cases hbits : n % 32 = 0
  · obtain ⟨r, hr, hok, hval⟩ := dl_shift_spec hx (n / 32)
    refine ⟨r, by simp [shift_left, if_neg hne, if_pos hbits, hr], hok, ?_⟩
    rw [hval, show 32 * (n / 32) = n by omega]
  have hused := hx.used_le
  have hlen := length_new_digits (x.used + n / 32 + 1 + 1)
  obtain ⟨digits, hlsh, hlen', hseg, hframe⟩ := lsh_spec (n := n)
    (show Operand.contents (.array x.digits) (new_digits (x.used + n / 32 + 1 + 1)) = x.digits from rfl) (by omega) hused
    (by omega)
  obtain ⟨r, hr, hok, hval, -⟩ := make_spec x.is_negative (x.used + n / 32 + 1) digits (by omega) (by omega)
    (fun _ => by rw [hframe _ (.inr (by omega)), digit_new_digits])
  refine ⟨r, by simp [shift_left, if_neg hne, if_neg hbits, hlsh, hr], hok, ?_⟩
  have hlo : digits.value (n / 32) = 0 := positional.value_eq_zero fun k hk => by
    rw [hframe k (.inl hk), digit_new_digits]
  rw [hval, show x.used + n / 32 + 1 = n / 32 + (x.used + 1) by omega, Uint32List.value_add, hlo, hseg,
    Nat.zero_add, value, ← signed_mul_pow]
  congr 1
  rw [magnitude, two_pow_eq n]
  ring

end BigIntImpl
end dart.bigint
