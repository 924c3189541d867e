import DartVM.BigInt.ModPow

namespace dart.bigint
open loops MontgomeryReduction ClassicReduction Nat Uint32List Powering OddPowers Represents

namespace Reduction

def Sound (p : Primitives) : Reduction → Prop
  | montgomery z => z.Sound p
  | classic z => z.Sound

/-- Digits that stand for an integer. -/
def Represents : Reduction → Int → Uint32List → Nat → Prop
  | montgomery z => z.Represents
  | classic z => z.Represents

/-- The integer that is made of digits that stand for `v`. -/
def outcome : Reduction → Int → Int
  | montgomery z => z.outcome
  | classic z => fun v => v % z.modulus.magnitude

variable {p : Primitives} {z z' : Reduction} {v w : Int} {x y r : Uint32List} {m n : Nat}

/-- Only the arrays for temporary results have changed. -/
structure Keeps (p : Primitives) (z z' : Reduction) : Prop where
  sound : z'.Sound p
  norm_eq : z'.norm_modulus_used = z.norm_modulus_used
  represents_iff : ∀ v digits used, z'.Represents v digits used ↔ z.Represents v digits used
  outcome_eq : ∀ v, z'.outcome v = z.outcome v

lemma Keeps.refl (h : z.Sound p) : z.Keeps p z := ⟨h, rfl, fun _ _ _ => Iff.rfl, fun _ => rfl⟩

lemma Keeps.trans {z'' : Reduction} (h : z.Keeps p z') (h' : z'.Keeps p z'') : z.Keeps p z'' :=
  ⟨h'.sound, h'.norm_eq.trans h.norm_eq, fun _ _ _ => (h'.represents_iff ..).trans (h.represents_iff ..),
    fun v => (h'.outcome_eq v).trans (h.outcome_eq v)⟩

lemma keeps_montgomery {z : MontgomeryReduction} {args : Uint32List} (h : { z with args := args }.Sound p) :
    (montgomery z).Keeps p (montgomery { z with args := args }) :=
  ⟨h, rfl, fun _ _ _ => ⟨fun h => ⟨h.1, h.2, h.3, h.4, h.5⟩, fun h => ⟨h.1, h.2, h.3, h.4, h.5⟩⟩, fun _ => rfl⟩

lemma keeps_classic {z : ClassicReduction} {args tmp : Uint32List}
    (h : { z with args := args, tmp_digits := tmp }.Sound) :
    (classic z).Keeps p (classic { z with args := args, tmp_digits := tmp }) :=
  ⟨h, rfl, fun _ _ _ => ⟨fun h => ⟨h.1, h.2, h.3⟩, fun h => ⟨h.1, h.2, h.3⟩⟩, fun _ => rfl⟩

lemma Represents.toPadded (h : z.Represents v x m) : Padded x m := by
  cases z with
  | montgomery z | classic z => exact toPadded h

lemma Represents.used_le_norm (hz : z.Sound p) (h : z.Represents v x m) : m ≤ z.norm_modulus_used := by
  cases z with
  | montgomery z =>
    exact (used_le_modulus h).trans (Sound.used_le hz)
  | classic z =>
    have hle := used_le_modulus h
    have hnorm := Sound.norm_used hz
    rw [norm_modulus_used]
    omega

section
variable (hz : z.Keeps p z') (hx : z.Represents v x m)
include hz hx

lemma Keeps.mul_spec (hy : z.Represents w y n) (hlen : r.length = 2 * z.norm_modulus_used + 2) :
    ∃ z'' r' u, z'.mul p x m y n r = .ok (z'', r', u) ∧ z.Keeps p z'' ∧ r'.length = r.length ∧
      z.Represents (v * w) r' u := by
  rw [← hz.norm_eq] at hlen
  rw [← hz.represents_iff] at hx hy
  cases z' with
  | montgomery z' =>
    obtain ⟨args, r', u, hmul, hsound, hlen', hrep⟩ := mul_spec hx hy hz.sound hlen
    exact ⟨_, r', u, by simp only [mul, hmul, ok_bind, pure_eq_ok], hz.trans (keeps_montgomery hsound), hlen',
      (hz.represents_iff ..).mp hrep⟩
  | classic z' =>
    obtain ⟨args, tmp, r', u, hmul, hsound, hlen', hrep⟩ := mul_spec (p := p) hz.sound hx hy hlen
    exact ⟨_, r', u, by simp only [mul, hmul, ok_bind, pure_eq_ok], hz.trans (keeps_classic hsound), hlen',
      (hz.represents_iff ..).mp hrep⟩

lemma Keeps.sqr_spec (hlen : r.length = 2 * z.norm_modulus_used + 2) : ∃ z'' r' u, z'.sqr p x m r = .ok (z'', r', u) ∧
    z.Keeps p z'' ∧ r'.length = r.length ∧ z.Represents (v * v) r' u := by
  rw [← hz.norm_eq] at hlen
  rw [← hz.represents_iff] at hx
  cases z' with
  | montgomery z' =>
    obtain ⟨args, r', u, hsqr, hsound, hlen', hrep⟩ := sqr_spec hz.sound hx hlen
    exact ⟨_, r', u, by simp [sqr, hsqr], hz.trans (keeps_montgomery hsound), hlen', (hz.represents_iff ..).mp hrep⟩
  | classic z' =>
    obtain ⟨args, tmp, r', u, hsqr, hsound, hlen', hrep⟩ := sqr_spec (p := p) hz.sound hx hlen
    exact ⟨_, r', u, by simp [sqr, hsqr], hz.trans (keeps_classic hsound), hlen', (hz.represents_iff ..).mp hrep⟩

lemma Keeps.revert_spec : ∃ a, z'.revert p x m = .ok a ∧ a.Valid ∧ a.value = z.outcome v := by
  rw [← hz.represents_iff] at hx
  rw [← hz.outcome_eq]
  cases z' with
  | montgomery z' => exact revert_spec hz.sound hx
  | classic z' => exact revert_spec hx

end

/-- Montgomery reduction only works for numbers below the modulus. -/
def Accepts : Reduction → BigIntImpl → Prop
  | montgomery z, x => x.magnitude < z.modulus.magnitude
  | classic _, _ => True

lemma convert_spec (hz : z.Sound p) {a : BigIntImpl} (ha : a.Valid) (hacc : z.Accepts a) :
    ∃ g, z.convert p a (new_digits z.norm_modulus_used) = .ok g ∧ z.Represents a.value g.1 g.2 := by
  have hnew := length_new_digits z.norm_modulus_used
  cases z with
  | montgomery z =>
    obtain ⟨r, u, hconv, -, hrep⟩ := convert_spec hz ha hacc
      (r := new_digits z.norm_modulus_used) (by rw [norm_modulus_used] at hnew; omega)
      (by rw [norm_modulus_used] at hnew; omega)
    exact ⟨(r, u), hconv, hrep⟩
  | classic z =>
    obtain ⟨r, u, hconv, -, hrep⟩ := convert_spec hz ha
      (r := new_digits z.norm_modulus_used) (by rw [norm_modulus_used] at hnew; omega)
      (by rw [norm_modulus_used] at hnew; omega)
    exact ⟨(r, u), hconv, hrep⟩

/-- Only the number that the digits represent counts. -/
lemma Represents.congr (h : z.Represents v x m) (hy : Padded y m) (hval : y.value m = x.value m) :
    z.Represents v y m := by
  cases z with
  | montgomery z =>
    exact ⟨hy, h.used_le_modulus, by rw [hval]; exact h.value_lt, by rw [hval]; exact h.value_modEq,
      by rw [hval]; exact h.zero_iff⟩
  | classic z =>
    exact ⟨hy, h.used_le_modulus, by rw [hval]; exact h.value_eq⟩

lemma initial_result_spec (hz : z.Keeps p z') {g : Uint32List × Nat} (hg : z.Represents v g.1 g.2) :
    ∃ result, initial_result z' g = .ok result ∧ result.1.length = 2 * z.norm_modulus_used + 2 ∧
      z.Represents v result.1 result.2 := by
  have hnew := length_new_digits (2 * z'.norm_modulus_used + 2)
  have hnorm := hz.norm_eq
  have hle := Represents.used_le_norm hz.sound ((hz.represents_iff ..).mpr hg)
  obtain ⟨r, hcopy, hlen, hpad, hval⟩ := copy_digits_spec hg.toPadded
    (show (new_digits (2 * z'.norm_modulus_used + 2)).length % 2 = 0 by omega) (by omega)
  exact ⟨(r, g.2), by simp only [initial_result, hcopy, ok_bind, pure_eq_ok], by simp only; omega, hg.congr hpad hval⟩

end Reduction

namespace Powering
variable {p : Primitives} {z : Reduction} {s : Powering} {v : Int}

/-- What holds of the arrays, whatever they represent. -/
structure Sound (p : Primitives) (z : Reduction) (s : Powering) : Prop where
  keeps : z.Keeps p s.z
  length_eq : s.result_digits.length = 2 * z.norm_modulus_used + 2
  length2_eq : s.result2_digits.length = 2 * z.norm_modulus_used + 2

/-- The result stands for an integer. -/
def Holds (z : Reduction) (v : Int) (s : Powering) : Prop := z.Represents v s.result_digits s.result_used

/-- The second result stands for an integer. -/
def Holds2 (z : Reduction) (v : Int) (s : Powering) : Prop := z.Represents v s.result2_digits s.result2_used

lemma Sound.swap (h : s.Sound p z) : s.swap.Sound p z := ⟨h.keeps, h.length2_eq, h.length_eq⟩

lemma Holds2.swap (h : s.Holds2 z v) : s.swap.Holds z v := h

lemma Holds.swap (h : s.Holds z v) : s.swap.Holds2 z v := h

lemma square_spec (hs : s.Sound p z) (h : s.Holds z v) :
    ∃ s', s.square p = .ok s' ∧ s'.Sound p z ∧ s'.Holds2 z (v * v) := by
  obtain ⟨z', r, u, hsqr, hkeeps, hlen, hrep⟩ := hs.keeps.sqr_spec h hs.length2_eq
  exact ⟨⟨z', s.result_digits, s.result_used, r, u⟩, by simp [square, hsqr],
    ⟨hkeeps, hs.length_eq, hlen.trans hs.length2_eq⟩, hrep⟩

lemma multiply_spec {w : Int} {g : Uint32List × Nat} (hs : s.Sound p z) (h : s.Holds2 z v)
    (hg : z.Represents w g.1 g.2) : ∃ s', s.multiply p g = .ok s' ∧ s'.Sound p z ∧ s'.Holds z (v * w) := by
  obtain ⟨z', r, u, hmul, hkeeps, hlen, hrep⟩ := hs.keeps.mul_spec h hg hs.length_eq
  exact ⟨⟨z', r, u, s.result2_digits, s.result2_used⟩, by simp [multiply, hmul],
    ⟨hkeeps, hlen.trans hs.length_eq, hs.length2_eq⟩, hrep⟩

end Powering

section
variable {digits : Uint32List} {u i : Nat} {p : Primitives} {z : Reduction} {s : Powering} {b : Int}
  {g : Uint32List × Nat}

lemma and_two_pow_ne_zero (d t : Nat) : decide (d &&& (1 <<< t) ≠ 0) = d.testBit t := by
  rw [one_shiftLeft, and_two_pow]
  cases h : d.testBit t <;> simp

lemma digit_testBit {j : Nat} (hj : j < u) (hi : i < 32) :
    (digits.digit j).testBit i = (digits.value u).testBit (32 * j + i) := by
  have hdig : digits.digit j = digits.value u / digit_base ^ j % digit_base :=
    (positional.digit_eq digits.digit_lt hj).symm
  rw [hdig, testBit_mod_two_pow, ← pow_mul, testBit_div_two_pow, decide_eq_true hi, Bool.true_and, add_comm]

lemma bit_set_spec (hlen : u ≤ digits.length) (hi : i < 32 * u) :
    bit_set digits i = .ok ((digits.value u).testBit i) := by
  rw [bit_set, read_eq (by rw [digit_bits]; omega), ok_bind, pure_eq_ok, and_two_pow_ne_zero,
    digit_testBit (show i / 32 < u by omega) (mod_lt i (by decide)), div_add_mod]

/-- The exponent up to a bit, from the exponent up to the bit above. -/
lemma div_two_pow_succ (e i : Nat) : e / 2 ^ i = 2 * (e / 2 ^ (i + 1)) + (e.testBit i).toNat := by
  rw [toNat_testBit, pow_succ, ← Nat.div_div_eq_div_mul, div_add_mod]

/-- One more bit of the exponent. -/
lemma bit_step_spec (hg : z.Represents b g.1 g.2) (hlen : u ≤ digits.length) (hi : i < 32 * u) (hs : s.Sound p z)
    (h : s.Holds z (b ^ (digits.value u / 2 ^ (i + 1)))) :
    ∃ s', bit_step p digits g s i = .ok s' ∧ s'.Sound p z ∧ s'.Holds z (b ^ (digits.value u / 2 ^ i)) := by
  obtain ⟨s1, hsquare, hs1, h1⟩ := square_spec hs h
  have hdouble : b ^ (digits.value u / 2 ^ (i + 1)) * b ^ (digits.value u / 2 ^ (i + 1)) =
      b ^ (2 * (digits.value u / 2 ^ (i + 1))) := by rw [← pow_add, two_mul]
  rw [hdouble] at h1
  rw [div_two_pow_succ, bit_step, hsquare, ok_bind, bit_set_spec hlen hi, ok_bind]
  cases (digits.value u).testBit i with
  | true =>
    obtain ⟨s2, hmultiply, hs2, h2⟩ := multiply_spec hs1 h1 hg
    exact ⟨s2, by rw [if_pos rfl, hmultiply], hs2, by rwa [Bool.toNat_true, pow_succ]⟩
  | false => exact ⟨s1.swap, rfl, hs1.swap, h1.swap⟩

/-- The exponent is processed bit by bit, starting with the bit below the most significant one. -/
lemma bitwise_power_spec (hz : z.Sound p) {x exponent : BigIntImpl} (hx : x.Valid) (hacc : z.Accepts x)
    (hexp : exponent.Valid) {l : Nat} (hlo : 2 ^ l ≤ exponent.magnitude) (hhi : exponent.magnitude < 2 ^ (l + 1)) :
    ∃ r, bitwise_power p z x exponent (l + 1) = .ok r ∧ r.Valid ∧ r.value = z.outcome (x.value ^ exponent.magnitude) := by
  have hnew := length_new_digits (2 * z.norm_modulus_used + 2)
  obtain ⟨g, hg, hgrep⟩ := Reduction.convert_spec hz hx hacc
  obtain ⟨result, hres, hlen, hrep⟩ := Reduction.initial_result_spec (Reduction.Keeps.refl hz) hgrep
  have hl : l < 32 * exponent.used := by
    refine (Nat.pow_lt_pow_iff_right (by decide)).mp (hlo.trans_lt ?_)
    rw [pow_mul]
    exact exponent.digits.value_lt _
  let I : Nat → Powering → Prop := fun i s => s.Sound p z ∧ s.Holds z (x.value ^ (exponent.magnitude / 2 ^ i))
  have hone : exponent.magnitude / 2 ^ l = 1 := by
    rw [Nat.div_eq_iff (by positivity)]
    omega
  obtain ⟨s, hloop, hs, h⟩ := foldlM_reverse_range_spec (bit_step p exponent.digits g) I l
    (fun i s hi hinv => bit_step_spec hgrep hexp.used_le (by omega) hinv.1 hinv.2)
    ⟨z, result.1, result.2, new_digits (2 * z.norm_modulus_used + 2), 0⟩
    ⟨⟨Reduction.Keeps.refl hz, hlen, by simp only; omega⟩, by rw [hone, pow_one]; exact hrep⟩
  rw [pow_zero, Nat.div_one] at h
  obtain ⟨r, hr, hok, hval⟩ := hs.keeps.revert_spec h
  refine ⟨r, ?_, hok, hval⟩
  rw [bitwise_power, hg, ok_bind, hres, ok_bind, Nat.add_sub_cancel, hloop, ok_bind, hr]

end

variable {digits : Uint32List} {u k : Nat}

lemma digit_testBit_of_le {j i : Nat} (hi : 32 ≤ i) : (digits.digit j).testBit i = false :=
  testBit_lt_two_pow ((digits.digit_lt j).trans_le (Nat.pow_le_pow_right (by decide) hi))

/-- The bits from a place down; zeros are shifted in below the exponent. -/
lemma window_spec (hlen : u ≤ digits.length) {j i : Nat} (hj : j < u) (hi : i < 32) (hk : k ≤ 32) :
    window digits k j i = .ok (digits.value u * 2 ^ (k - 1) / 2 ^ (32 * j + i) % 2 ^ k) := by
  have hread : digits.read j = .ok (digits.digit j) := read_eq (by omega)
  have hmask (n : Nat) : (1 <<< n) - 1 = 2 ^ n - 1 := by rw [one_shiftLeft]
  by_cases hwhole : k - 1 ≤ i
  · simp only [window, if_pos hwhole, hread, ok_bind, pure_eq_ok, hmask, and_two_pow_sub_one_eq_mod]
    congr 1
    refine eq_of_testBit_eq fun b => ?_
    simp only [testBit_mod_two_pow, testBit_shiftRight, testBit_div_two_pow, testBit_mul_two_pow]
    by_cases hb : b < k
    · rw [digit_testBit hj (by omega), decide_eq_true hb, decide_eq_true (by omega)]
      simp only [Bool.true_and]
      congr 1
      omega
    · rw [decide_eq_false hb, Bool.false_and, Bool.false_and]
  -- The bits of the upper digit, which are those from place `k - 1 - i` of the window on.
  have hupper (b : Nat) : ((digits.digit j % 2 ^ (i + 1)) <<< (k - 1 - i)).testBit b =
      (decide (k - 1 - i ≤ b) && (decide (b < k) && (digits.value u).testBit (b + (32 * j + i) - (k - 1)))) := by
    rw [testBit_shiftLeft, testBit_mod_two_pow]
    by_cases hge : k - 1 - i ≤ b
    · by_cases hb : b < k
      · rw [digit_testBit hj (by omega), decide_eq_true hge, decide_eq_true hb, decide_eq_true (by omega)]
        simp only [Bool.true_and]
        congr 1
        omega
      · rw [decide_eq_false hb, decide_eq_false (show ¬b - (k - 1 - i) < i + 1 by omega), Bool.false_and,
          Bool.false_and]
    · rw [decide_eq_false hge, Bool.false_and, Bool.false_and]
  by_cases hlower : 0 < j
  · have hread' : digits.read (j - 1) = .ok (digits.digit (j - 1)) := read_eq (by omega)
    simp only [window, if_neg hwhole, if_pos hlower, hread, hread', ok_bind, pure_eq_ok, hmask,
      and_two_pow_sub_one_eq_mod]
    congr 1
    refine eq_of_testBit_eq fun b => ?_
    simp only [testBit_or, hupper, testBit_shiftRight, testBit_mod_two_pow, testBit_div_two_pow, testBit_mul_two_pow]
    rw [decide_eq_true (show k - 1 ≤ b + (32 * j + i) by omega), Bool.true_and]
    by_cases hge : k - 1 - i ≤ b
    · rw [digit_testBit_of_le (show 32 ≤ digit_bits + i - (k - 1) + b by rw [digit_bits]; omega), decide_eq_true hge,
        Bool.true_and, Bool.or_false]
    rw [digit_testBit (show j - 1 < u by omega) (show digit_bits + i - (k - 1) + b < 32 by rw [digit_bits]; omega),
      decide_eq_false hge, decide_eq_true (by omega), Bool.false_and, Bool.false_or, Bool.true_and]
    congr 1
    rw [digit_bits]
    omega
  · simp only [window, if_neg hwhole, if_neg hlower, hread, ok_bind, pure_eq_ok, hmask, and_two_pow_sub_one_eq_mod]
    congr 1
    refine eq_of_testBit_eq fun b => ?_
    simp only [hupper, testBit_mod_two_pow, testBit_div_two_pow, testBit_mul_two_pow]
    by_cases hge : k - 1 - i ≤ b
    · rw [decide_eq_true hge, decide_eq_true (show k - 1 ≤ b + (32 * j + i) by omega), Bool.true_and, Bool.true_and]
    · rw [decide_eq_false hge, decide_eq_false (show ¬k - 1 ≤ b + (32 * j + i) by omega), Bool.false_and, Bool.false_and,
        Bool.and_false]

/-- The zeros at the end of a window are dropped. -/
lemma strip_zeros_spec (fuel : Nat) {w : Nat} (n : Nat) (hw : w ≠ 0) (hlt : w < 2 ^ fuel) :
    ∃ t, t < fuel ∧ strip_zeros fuel w n = .ok (w / 2 ^ t, n - t) ∧ w / 2 ^ t % 2 = 1 := by
  induction fuel generalizing w n with
  | zero => exact absurd hlt (by rw [pow_zero]; omega)
  | succ fuel ih =>
    rw [strip_zeros, and_one_is_mod]
    by_cases heven : w % 2 = 0
    · obtain ⟨t, ht, hstrip, hodd⟩ := ih (w := w >>> 1) (n - 1) (by rw [shiftRight_one]; omega)
        (by rw [shiftRight_one]; omega)
      have hdiv : w >>> 1 / 2 ^ t = w / 2 ^ (t + 1) := by
        rw [shiftRight_one, Nat.div_div_eq_div_mul, pow_succ']
      rw [hdiv] at hstrip hodd
      exact ⟨t + 1, by omega, by rw [if_pos heven, hstrip, Nat.sub_sub, Nat.add_comm 1], hodd⟩
    · refine ⟨0, by omega, ?_, by rw [pow_zero, Nat.div_one]; omega⟩
      rw [if_neg heven, pow_zero, Nat.div_one, Nat.sub_zero]

/-- A window without `t` zeros at its end is the window of the other `n` bits. -/
lemma window_div {e q t n : Nat} : e * 2 ^ (t + n) / 2 ^ q % 2 ^ (t + n) / 2 ^ t = e * 2 ^ n / 2 ^ q % 2 ^ n := by
  rw [pow_add, mod_mul_right_div_self, Nat.div_div_eq_div_mul, show e * (2 ^ t * 2 ^ n) = e * 2 ^ n * 2 ^ t by ring,
    Nat.mul_div_mul_right _ _ (by positivity)]

/-- A window whose last bit is set lies within the exponent `e`: it has the `n` bits below the `q` bits
that are not processed yet. -/
lemma window_value {e q n : Nat} (hn : 0 < n) (hodd : e * 2 ^ n / 2 ^ q % 2 ^ n % 2 = 1) :
    n ≤ q ∧ e / 2 ^ (q - n) = e / 2 ^ q * 2 ^ n + e * 2 ^ n / 2 ^ q % 2 ^ n := by
  have hle : n ≤ q := by
    by_contra hgt
    have hpow : e * 2 ^ n = e * 2 ^ (n - q) * 2 ^ q := by
      rw [Nat.mul_assoc, ← pow_add, Nat.sub_add_cancel (by omega)]
    have heven : 2 ∣ e * 2 ^ (n - q) := Dvd.dvd.mul_left (dvd_pow_self 2 (by omega)) e
    rw [hpow, Nat.mul_div_cancel _ (by positivity), mod_mod_of_dvd _ (dvd_pow_self 2 (by omega))] at hodd
    omega
  have hquot : e * 2 ^ n / 2 ^ q = e / 2 ^ (q - n) := by
    rw [show 2 ^ q = 2 ^ (q - n) * 2 ^ n by rw [← pow_add, Nat.sub_add_cancel hle],
      Nat.mul_div_mul_right _ _ (by positivity)]
  refine ⟨hle, ?_⟩
  rw [hquot, show e / 2 ^ q = e / 2 ^ (q - n) / 2 ^ n by
    rw [Nat.div_div_eq_div_mul, ← pow_add, Nat.sub_add_cancel hle], div_add_mod']

/-- The place of the `q`-th bit, so that `q` bits are not processed yet. -/
def Position.At (pos : Position) (q : Nat) : Prop := 32 * pos.j + pos.i + 1 = q ∧ pos.i < 32

variable {pos : Position} {q : Nat} {p : Primitives} {z : Reduction} {b v : Int} {s : Powering}

lemma Position.At.back {q n : Nat} (h : pos.At q) (hn : n ≤ 32) (hle : n ≤ q) : (pos.back n).At (q - n) := by
  obtain ⟨hq, hi⟩ := h
  simp only [Position.back, Position.At, digit_bits]
  split <;> simp only <;> omega

lemma Position.At.nonneg_iff (h : pos.At q) : 0 ≤ pos.j ↔ 0 < q := by
  obtain ⟨hq, hi⟩ := h
  omega

lemma square_times_spec (n : Nat) (hs : s.Sound p z) (h : s.Holds z v) :
    ∃ s', square_times p n s = .ok s' ∧ s'.Sound p z ∧ s'.Holds2 z (v ^ 2 ^ n) := by
  induction n using Nat.strong_induction_on generalizing s v with
  | _ n ih =>
    match n with
    | 0 => exact ⟨s.swap, rfl, hs.swap, by rw [pow_zero, pow_one]; exact h.swap⟩
    | 1 =>
      obtain ⟨s', hs', hsound, h'⟩ := square_spec hs h
      exact ⟨s', hs', hsound, by rwa [pow_one, pow_two]⟩
    | n + 2 =>
      obtain ⟨s1, hs1, hsound1, h1⟩ := square_spec hs h
      obtain ⟨s2, hs2, hsound2, h2⟩ := square_spec hsound1.swap h1.swap
      obtain ⟨s3, hs3, hsound3, h3⟩ := ih n (by omega) hsound2.swap h2.swap
      refine ⟨s3, by rw [square_times, hs1, ok_bind, hs2, ok_bind, hs3], hsound3, ?_⟩
      rwa [show v * v * (v * v) = v ^ 4 by ring, ← pow_mul, show 4 * 2 ^ n = 2 ^ (n + 2) by ring] at h3

/-- After a window, the result is squared for every zero of the exponent. -/
lemma skip_zeros_spec (hlen : u ≤ digits.length) (fuel : Nat)
    (hs : s.Sound p z) (h : s.Holds z (b ^ (digits.value u / 2 ^ q))) (hpos : pos.At q) (hq : q ≤ 32 * u)
    (hfuel : q < fuel) : ∃ s' pos' q', skip_zeros p digits fuel s pos = .ok (s', pos') ∧ s'.Sound p z ∧
      s'.Holds z (b ^ (digits.value u / 2 ^ q')) ∧ pos'.At q' ∧ q' ≤ q ∧
      (0 < q' → (digits.value u).testBit (q' - 1) = true) := by
  induction fuel generalizing s pos q with
  | zero => exact absurd hfuel (not_lt_zero _)
  | succ fuel ih =>
    by_cases hend : 0 ≤ pos.j
    · obtain ⟨hat, hi⟩ := id hpos
      have hqpos := hpos.nonneg_iff.mp hend
      have hread : digits.read pos.j.toNat = .ok (digits.digit pos.j.toNat) := read_eq (by omega)
      have hbit : (digits.digit pos.j.toNat).testBit pos.i = (digits.value u).testBit (q - 1) := by
        rw [digit_testBit (show pos.j.toNat < u by omega) hi]
        congr 1
        omega
      have h0 := and_two_pow_ne_zero (digits.digit pos.j.toNat) pos.i
      rw [hbit] at h0
      rw [skip_zeros, if_pos hend, hread, ok_bind]
      cases hset : (digits.value u).testBit (q - 1) with
      | true =>
        rw [hset, decide_eq_true_eq] at h0
        exact ⟨s, pos, q, by rw [if_neg h0, pure_eq_ok], hs, h, hpos, le_rfl, fun _ => hset⟩
      | false =>
        rw [hset, decide_eq_false_iff_not, not_not] at h0
        obtain ⟨s1, hs1, hsound1, h1⟩ := square_spec hs h
        have hnext : b ^ (digits.value u / 2 ^ q) * b ^ (digits.value u / 2 ^ q) =
            b ^ (digits.value u / 2 ^ (q - 1)) := by
          rw [div_two_pow_succ _ (q - 1), hset, Nat.sub_add_cancel hqpos, ← pow_add, Nat.two_mul]
          rfl
        rw [hnext] at h1
        obtain ⟨s', pos', q', hrest, hsound', h', hat', hle, htop⟩ :=
          ih hsound1.swap h1.swap (hpos.back (by decide) hqpos) (by omega) (by omega)
        exact ⟨s', pos', q', by rw [if_pos h0, hs1, ok_bind, hrest], hsound', h', hat', by omega, htop⟩
    · have hqzero : ¬0 < q := mt hpos.nonneg_iff.mpr hend
      exact ⟨s, pos, q, by rw [skip_zeros, if_neg hend], hs, h, hpos, le_rfl, fun hq' => absurd hq' hqzero⟩

/-- The table has the powers with an odd exponent below `n`. -/
def OddPowers.Covers (z : Reduction) (b : Int) (n : Nat) (g : OddPowers) : Prop :=
  ∀ w, w % 2 = 1 → w < n → ∃ power, g.get w = .ok power ∧ z.Represents (b ^ w) power.1 power.2

variable {g : OddPowers} {is_one : Bool}

lemma OddPowers.get_set_self {n : Nat} (h : n < g.length) (power : Uint32List × Nat) :
    get (g.set n (some power)) n = .ok power := by
  rw [get, List.getElem?_set_self h]

lemma OddPowers.get_set_of_ne {m n : Nat} (h : n ≠ m) (power : Uint32List × Nat) :
    get (g.set n (some power)) m = g.get m := by
  rw [get, get, List.getElem?_set_ne h]

/-- Each power is the square times the power before. -/
lemma odd_powers_loop_spec {g2 : Uint32List × Nat} {km : Nat} (hg2 : z.Represents (b * b) g2.1 g2.2) (fuel : Nat)
    {z' : Reduction} {n : Nat} (hz : z.Keeps p z') (hlen : g.length = km + 1) (hn : n % 2 = 1)
    (hthree : 3 ≤ n) (hfuel : km + 1 - n < fuel) (hg : g.Covers z b n) :
    ∃ z'' g', odd_powers_loop p g2 km fuel z' g n = .ok (z'', g') ∧ z.Keeps p z'' ∧ g'.Covers z b (km + 1) := by
  induction fuel generalizing z' g n with
  | zero => exact absurd hfuel (not_lt_zero _)
  | succ fuel ih =>
    by_cases hle : n ≤ km
    · obtain ⟨before, hbefore, hrep⟩ := hg (n - 2) (by omega) (by omega)
      have hnew := length_new_digits (2 * z'.norm_modulus_used + 2)
      have hnorm := hz.norm_eq
      obtain ⟨z1, r, v, hmul, hz1, -, hpower⟩ := hz.mul_spec (r := new_digits (2 * z'.norm_modulus_used + 2)) hg2 hrep
        (by omega)
      rw [show b * b * b ^ (n - 2) = b ^ n by rw [← pow_two, ← pow_add, add_sub_of_le (by omega)]] at hpower
      have hcovers : Covers z b (n + 2) (g.set n (some (r, v))) := fun w hodd hlt => by
        by_cases hw : w = n
        · rw [hw]
          exact ⟨(r, v), get_set_self (by omega) _, hpower⟩
        · rw [get_set_of_ne (Ne.symm hw)]
          exact hg w hodd (by omega)
      obtain ⟨z2, g₂, hrest, hz2, hg₂⟩ := ih hz1 (by rw [List.length_set, hlen]) (by omega) (by omega) (by omega) hcovers
      exact ⟨z2, g₂, by simp [odd_powers_loop, if_pos hle, hbefore, hmul, hrest], hz2, hg₂⟩
    · exact ⟨z', g, by rw [odd_powers_loop, if_neg hle], hz, fun w hodd hlt => hg w hodd (by omega)⟩

lemma odd_powers_spec (hz : z.Sound p) {x : BigIntImpl} (hx : x.Valid) (hacc : z.Accepts x) (hk : 0 < k) :
    ∃ z' g, odd_powers p z x k = .ok (z', g) ∧ z.Keeps p z' ∧ g.Covers z x.value (2 ^ k) := by
  obtain ⟨g1, hg1, hrep⟩ := Reduction.convert_spec hz hx hacc
  have hkm : (1 <<< k) - 1 + 1 = 2 ^ k := by
    rw [one_shiftLeft, Nat.sub_add_cancel (Nat.one_le_two_pow)]
  have htwo : 2 ^ 1 ≤ 2 ^ k := Nat.pow_le_pow_right (by decide) hk
  generalize hm : (1 <<< k) - 1 = km at hkm
  let g : OddPowers := (List.replicate (km + 1) none).set 1 (some g1)
  have hlen : g.length = km + 1 := by rw [List.length_set, List.length_replicate]
  have hcovers : Covers z x.value 3 g := fun w hodd hlt => by
    obtain rfl : w = 1 := by omega
    exact ⟨g1, get_set_self (by rw [List.length_replicate]; omega) g1, by rwa [pow_one]⟩
  by_cases hone : 1 < k
  · have hnew := length_new_digits (2 * z.norm_modulus_used + 2)
    obtain ⟨z1, r, v, hsqr, hz1, -, hg2⟩ := (Reduction.Keeps.refl hz).sqr_spec
      (r := new_digits (2 * z.norm_modulus_used + 2)) hrep (by omega)
    obtain ⟨z2, g2, hloop, hz2, hg₂⟩ := odd_powers_loop_spec
      (show z.Represents (x.value * x.value) (r, v).1 (r, v).2 from hg2) (km + 1) hz1 hlen (by decide) le_rfl (by omega)
      hcovers
    refine ⟨z2, g2, ?_, hz2, by rwa [hkm] at hg₂⟩
    rw [odd_powers, hg1, ok_bind, hm, if_pos hone, hsqr, ok_bind]
    exact hloop
  · refine ⟨z, g, ?_, Reduction.Keeps.refl hz, fun w hodd hlt => hcovers w hodd ?_⟩
    · rw [odd_powers, hg1, ok_bind, hm, if_neg hone, pure_eq_ok]
    · rw [show k = 1 by omega] at hlt
      omega

/-- The result before the first window, and after that. -/
structure Powered (p : Primitives) (z : Reduction) (b : Int) (e q : Nat) (is_one : Bool) (s : Powering) : Prop where
  keeps : z.Keeps p s.z
  length2_eq : s.result2_digits.length = 2 * z.norm_modulus_used + 2
  initial : is_one = true → e / 2 ^ q = 0
  later : is_one = false → s.Sound p z ∧ s.Holds z (b ^ (e / 2 ^ q))

lemma window_step_spec {e q q' w n : Nat} (hg : g.Covers z b (2 ^ k))
    (hw : w % 2 = 1) (hlt : w < 2 ^ k) (hnext : e / 2 ^ q' = e / 2 ^ q * 2 ^ n + w) (h : Powered p z b e q is_one s) :
    ∃ s', window_step p g w n is_one s = .ok s' ∧ s'.Sound p z ∧ s'.Holds z (b ^ (e / 2 ^ q')) := by
  obtain ⟨power, hpower, hrep⟩ := hg w hw hlt
  cases is_one with
  | true =>
    obtain ⟨result, hres, hlen, hrep'⟩ := Reduction.initial_result_spec h.keeps hrep
    refine ⟨{ s with result_digits := result.1, result_used := result.2 }, ?_, ⟨h.keeps, hlen, h.length2_eq⟩, ?_⟩
    · rw [window_step, if_pos rfl, hpower, ok_bind, hres, ok_bind, pure_eq_ok]
    · rw [hnext, h.initial rfl, zero_mul, zero_add]
      exact hrep'
  | false =>
    obtain ⟨hs, hv⟩ := h.later rfl
    obtain ⟨s1, hs1, hsound1, h1⟩ := square_times_spec n hs hv
    obtain ⟨s2, hs2, hsound2, h2⟩ := multiply_spec hsound1 h1 hrep
    refine ⟨s2, ?_, hsound2, ?_⟩
    · rw [window_step, if_neg Bool.false_ne_true, hs1, ok_bind, hpower, ok_bind, hs2]
    · rwa [hnext, pow_add, pow_mul]

/-- The next window starts with a bit that is set and is cut off after the last such bit. -/
lemma next_window (hlen : u ≤ digits.length) (hk : 0 < k) (hk32 : k ≤ 32)
    (hpos : pos.At q) (hq : q ≤ 32 * u) (hqpos : 0 < q) (htop : (digits.value u).testBit (q - 1) = true) :
    ∃ w n, (window digits k pos.j.toNat pos.i >>= fun w => strip_zeros k w k) = .ok (w, n) ∧ w % 2 = 1 ∧ w < 2 ^ k ∧
      0 < n ∧ n ≤ min k q ∧ digits.value u / 2 ^ (q - n) = digits.value u / 2 ^ q * 2 ^ n + w := by
  obtain ⟨hat, hi⟩ := id hpos
  have hwindow := window_spec hlen (show pos.j.toNat < u by omega) hi hk32
  have hval : digits.value u * 2 ^ (k - 1) / 2 ^ (32 * pos.j.toNat + pos.i) = digits.value u * 2 ^ k / 2 ^ q := by
    rw [show 32 * pos.j.toNat + pos.i = q - 1 by omega, ← Nat.mul_div_mul_right _ _ (show 0 < 2 by decide), Nat.mul_assoc,
      ← pow_succ, ← pow_succ, Nat.sub_add_cancel hk, Nat.sub_add_cancel hqpos]
  rw [hval] at hwindow
  have hne : digits.value u * 2 ^ k / 2 ^ q % 2 ^ k ≠ 0 := fun h0 => by
    have hbit : (digits.value u * 2 ^ k / 2 ^ q % 2 ^ k).testBit (k - 1) = true := by
      rw [testBit_mod_two_pow, testBit_div_two_pow, testBit_mul_two_pow, decide_eq_true (by omega), decide_eq_true (by
        omega), Bool.true_and, Bool.true_and, show k - 1 + q - k = q - 1 by omega, htop]
    rw [h0, zero_testBit] at hbit
    exact Bool.false_ne_true hbit
  obtain ⟨t, ht, hstrip, hodd⟩ := strip_zeros_spec k k hne (mod_lt _ (by positivity))
  have hdiv : digits.value u * 2 ^ k / 2 ^ q % 2 ^ k / 2 ^ t = digits.value u * 2 ^ (k - t) / 2 ^ q % 2 ^ (k - t) := by
    conv_lhs => rw [show k = t + (k - t) by omega]
    exact window_div
  rw [hdiv] at hstrip hodd
  obtain ⟨hle, hnext⟩ := window_value (by omega) hodd
  refine ⟨_, k - t, by rw [hwindow, ok_bind, hstrip], hodd, ?_, by omega, by omega, hnext⟩
  exact (mod_lt _ (by positivity)).trans_le (Nat.pow_le_pow_right (by decide) (by omega))

/-- The windows together make up the exponent. -/
lemma window_loop_spec (hlen : u ≤ digits.length) (hk : 0 < k) (hk32 : k ≤ 32) (hg : g.Covers z b (2 ^ k))
    (fuel : Nat) (h : Powered p z b (digits.value u) q is_one s) (hpos : pos.At q) (hq : q ≤ 32 * u)
    (htop : 0 < q → (digits.value u).testBit (q - 1) = true) (hone : is_one = true → 0 < q) (hfuel : q < fuel) : ∃ s',
    window_loop p digits k g fuel is_one s pos = .ok (false, s') ∧ s'.Sound p z ∧ s'.Holds z (b ^ digits.value u) := by
  induction fuel generalizing is_one s pos q with
  | zero => exact absurd hfuel (not_lt_zero _)
  | succ fuel ih =>
    by_cases hend : 0 ≤ pos.j
    · obtain ⟨hat, hi⟩ := id hpos
      have hqpos := hpos.nonneg_iff.mp hend
      obtain ⟨w, n, hwindow, hodd, hlt, hnpos, hnq, hnext⟩ := next_window hlen hk hk32 hpos hq hqpos (htop hqpos)
      obtain ⟨s1, hs1, hsound1, h1⟩ := window_step_spec hg hodd hlt hnext h
      obtain ⟨s2, pos2, q2, hs2, hsound2, h2, hpos2, hle2, htop2⟩ := skip_zeros_spec hlen fuel hsound1 h1
        (hpos.back (by omega) (by omega)) (by omega) (by omega)
      have hpowered : Powered p z b (digits.value u) q2 false s2 :=
        ⟨hsound2.keeps, hsound2.length2_eq, fun h => absurd h Bool.false_ne_true, fun _ => ⟨hsound2, h2⟩⟩
      obtain ⟨s3, hs3, hsound3, h3⟩ := ih hpowered hpos2 (by omega) htop2 (fun h => absurd h Bool.false_ne_true) (by omega)
      refine ⟨s3, ?_, hsound3, h3⟩
      rw [window_loop, if_pos hend, ← bind_assoc, hwindow, ok_bind]
      simp only [hs1, ok_bind, hs2]
      exact hs3
    · have hqzero : q = 0 := by
        have := mt hpos.nonneg_iff.mpr hend
        omega
      have hfalse : is_one = false := by
        cases is_one with
        | true => exact absurd (hone rfl) (by omega)
        | false => rfl
      subst hfalse
      obtain ⟨hs, hv⟩ := h.later rfl
      rw [hqzero, pow_zero, Nat.div_one] at hv
      exact ⟨s, by rw [window_loop, if_neg hend], hs, hv⟩

lemma window_bits_bounds (n : Nat) : 0 < window_bits n ∧ window_bits n ≤ 32 := by
  rw [window_bits]
  split_ifs <;> decide

/-- The most significant digit determines the most significant bit. -/
lemma BigIntImpl.Valid.log2_spec {x : BigIntImpl} (hx : x.Valid) (hused : x.used ≠ 0) {l : Nat}
    (hl : l = 32 * (x.used - 1) + (x.digits.digit (x.used - 1)).log2) : 2 ^ l ≤ x.magnitude ∧ x.magnitude < 2 ^ (l + 1) := by
  have htop := hx.top_digit hused
  have hmag : x.magnitude =
      x.digits.value (x.used - 1) + x.digits.digit (x.used - 1) * digit_base ^ (x.used - 1) := by
    rw [BigIntImpl.magnitude]
    conv_lhs => rw [← Nat.sub_add_cancel (Nat.pos_of_ne_zero hused)]
    exact positional.value_succ
  have hlo : x.digits.value (x.used - 1) < digit_base ^ (x.used - 1) := x.digits.value_lt _
  have hpow : digit_base ^ (x.used - 1) = 2 ^ (32 * (x.used - 1)) := by rw [pow_mul]
  rw [hpow] at hmag hlo
  subst hl
  generalize x.digits.digit (x.used - 1) = d at *
  have hlog : 2 ^ d.log2 ≤ d := (le_log2 htop).mp le_rfl
  have hlog' : d + 1 ≤ 2 ^ (d.log2 + 1) := (log2_lt htop).mp (lt_succ_self _)
  constructor
  · calc 2 ^ (32 * (x.used - 1) + d.log2) = 2 ^ d.log2 * 2 ^ (32 * (x.used - 1)) := by rw [pow_add, mul_comm]
      _ ≤ d * 2 ^ (32 * (x.used - 1)) := mul_le_mul_right _ hlog
      _ ≤ x.magnitude := by rw [hmag]; exact Nat.le_add_left ..
  · calc x.magnitude < (d + 1) * 2 ^ (32 * (x.used - 1)) := by rw [hmag, add_mul, one_mul]; omega
      _ ≤ 2 ^ (d.log2 + 1) * 2 ^ (32 * (x.used - 1)) := mul_le_mul_right _ hlog'
      _ = 2 ^ (32 * (x.used - 1) + d.log2 + 1) := by rw [← pow_add]; congr 1; omega

lemma window_power_spec (hz : z.Sound p) {x exponent : BigIntImpl} (hx : x.Valid) (hacc : z.Accepts x)
    (hexp : exponent.Valid) (hused : exponent.used ≠ 0) (length : Nat) :
    ∃ r, window_power p z x exponent length = .ok r ∧ r.Valid ∧ r.value = z.outcome (x.value ^ exponent.magnitude) := by
  obtain ⟨hk, hk32⟩ := window_bits_bounds length
  have hle := hexp.used_le
  obtain ⟨z', g, hpowers, hz', hg⟩ := odd_powers_spec hz hx hacc hk
  have hread : exponent.digits.read (exponent.used - 1) = .ok (exponent.digits.digit (exponent.used - 1)) :=
    read_eq (by omega)
  have htop := hexp.top_digit hused
  have hlog : (exponent.digits.digit (exponent.used - 1)).log2 < 32 :=
    (log2_lt htop).mpr (exponent.digits.digit_lt _)
  obtain ⟨hlo, hhi⟩ := hexp.log2_spec hused rfl
  generalize hd : (exponent.digits.digit (exponent.used - 1)).log2 = i at *
  have hlen : bit_length (exponent.digits.digit (exponent.used - 1)) = i + 1 := by
    rw [bit_length, if_neg htop, hd]
  generalize hq : 32 * (exponent.used - 1) + i = q at *
  have h0 : exponent.magnitude / 2 ^ (q + 1) = 0 := div_eq_of_lt hhi
  have hbit : exponent.magnitude.testBit q = true := testBit_of_two_pow_le_and_two_pow_add_one_gt hlo hhi
  have hnew := length_new_digits (2 * z'.norm_modulus_used + 2)
  have hnorm := hz'.norm_eq
  have hpowered : Powered p z x.value exponent.magnitude (q + 1) true
      ⟨z', BigIntImpl.one.digits, BigIntImpl.one.used, new_digits (2 * z'.norm_modulus_used + 2), 0⟩ :=
    ⟨hz', by simp only; omega, fun _ => h0, fun h => absurd h.symm Bool.false_ne_true⟩
  have hpos : Position.At ⟨(exponent.used - 1 : Nat), i⟩ (q + 1) := ⟨by simp only; omega, hlog⟩
  obtain ⟨s, hloop, hs, h⟩ := window_loop_spec hle hk hk32 hg (digit_bits * exponent.used + 1) hpowered hpos (by omega)
    (fun _ => hbit) (fun _ => succ_pos _) (by simp only [digit_bits]; omega)
  obtain ⟨r, hr, hok, hval⟩ := hs.keeps.revert_spec h
  refine ⟨r, ?_, hok, hval⟩
  simp [window_power, hpowers, hread, hlen, hloop, hr]

end dart.bigint
