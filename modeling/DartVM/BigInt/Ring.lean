import DartVM.BigInt.MulAdd

namespace dart.bigint
open Uint32List positional

/-- An arbitrarily large integer: a sign and an array of digits, the least significant
one first, of which some are used. -/
structure BigIntImpl where
  is_negative : Bool
  digits : Uint32List
  used : Nat
deriving DecidableEq

namespace BigIntImpl

/-- The absolute value of the integer that is represented. -/
def magnitude (x : BigIntImpl) : Nat := x.digits.value x.used

section
variable (is_negative : Bool)

/-- The integer with a sign and an absolute value. -/
def signed (magnitude : Nat) : Int := if is_negative then -magnitude else magnitude

/-- The integer that is represented. -/
def value (x : BigIntImpl) : Int := signed x.is_negative x.magnitude

/-- How integers are represented: the most significant digit is not zero, and zero has no
sign. -/
structure Valid (x : BigIntImpl) : Prop extends Padded x.digits x.used where
  top_digit : x.used ≠ 0 → x.digits.digit (x.used - 1) ≠ 0
  zero_sign : x.used = 0 → x.is_negative = false

/-- `_used.isEven || _digits[_used] == 0`. -/
def has_leading_zero (used : Nat) (digits : Uint32List) : Checked Bool :=
  if used % 2 = 0 then .ok true else do return (← digits.read used) == 0

/-- `_BigIntImpl._normalized`. -/
def normalized (used : Nat) (digits : Uint32List) : Checked BigIntImpl := do
  check (digits.length % 2 = 0)
  check (← has_leading_zero used digits)
  return ⟨if used = 0 then false else is_negative, digits, used⟩

/-- `_BigIntImpl._`. -/
def make (used : Nat) (digits : Uint32List) : Checked BigIntImpl := do
  normalized is_negative (← normalize digits used) digits

end

/-- `_BigIntImpl.zero`. -/
def zero : BigIntImpl := ⟨false, new_digits 2, 0⟩

def is_zero (x : BigIntImpl) : Bool := x.used == 0

/-- `operator -()`. -/
def neg (x : BigIntImpl) : Checked BigIntImpl :=
  if x.used = 0 then .ok x else make (!x.is_negative) x.used x.digits

def abs (x : BigIntImpl) : Checked BigIntImpl := if x.is_negative then neg x else .ok x

section
variable (x other : BigIntImpl)

def abs_compare : Checked Int :=
  compare_digits x.digits x.used other.digits other.used

def compare_to : Checked Int := do
  if x.is_negative = other.is_negative then
    let result ← abs_compare x other
    return if x.is_negative then 0 - result else result
  return if x.is_negative then -1 else 1

/-- `operator ==`. -/
def equals : Checked Bool := do
  return (← compare_to x other) == 0

section
variable (is_negative : Bool)

/-- `abs(this) + abs(other)` with the given sign, when `this` has no fewer digits. -/
def abs_add_longer : Checked BigIntImpl := do
  if x.used = 0 then
    check !is_negative
    return zero
  if other.used = 0 then
    if x.is_negative = is_negative then return x else neg x
  else
    let result_digits ← abs_add (.array x.digits) x.used other.digits other.used (new_digits (x.used + 1))
    make is_negative (x.used + 1) result_digits

def abs_add_set_sign : Checked BigIntImpl :=
  if x.used < other.used then abs_add_longer other x is_negative else abs_add_longer x other is_negative

/-- `abs(this) - abs(other)` with the given sign. -/
def abs_sub_set_sign : Checked BigIntImpl := do
  check (0 ≤ (← abs_compare x other))
  if x.used = 0 then
    check !is_negative
    return zero
  if other.used = 0 then
    if x.is_negative = is_negative then return x else neg x
  else
    let result_digits ← abs_sub (.array x.digits) x.used other.digits other.used (new_digits x.used)
    make is_negative x.used result_digits

end

/-- `operator +`. -/
def add : Checked BigIntImpl := do
  if x.is_zero then return other
  if other.is_zero then return x
  if x.is_negative = other.is_negative then
    abs_add_set_sign x other x.is_negative
  else if 0 ≤ (← abs_compare x other) then
    abs_sub_set_sign x other x.is_negative
  else
    abs_sub_set_sign other x !x.is_negative

/-- `operator -`. -/
def sub : Checked BigIntImpl := do
  if x.is_zero then neg other
  else if other.is_zero then return x
  else if x.is_negative ≠ other.is_negative then
    abs_add_set_sign x other x.is_negative
  else if 0 ≤ (← abs_compare x other) then
    abs_sub_set_sign x other x.is_negative
  else
    abs_sub_set_sign other x !x.is_negative

end

/-- `operator *`. -/
def mul (p : Primitives) (x other : BigIntImpl) : Checked BigIntImpl := do
  if x.used = 0 ∨ other.used = 0 then return zero
  let result_used := x.used + other.used
  let result_digits ← mul_loop p other.digits other.used x.digits x.used (other.used + 1) (new_digits result_used) 0
  make (x.is_negative != other.is_negative) result_used result_digits

section

lemma is_zero_iff {x : BigIntImpl} : x.is_zero = true ↔ x.used = 0 := beq_iff_eq

lemma signed_not (s : Bool) (n : Nat) : signed (!s) n = -signed s n := by
  cases s <;> simp [signed]

@[simp] lemma signed_zero (s : Bool) : signed s 0 = 0 := by
  cases s <;> rfl

@[simp] lemma natAbs_signed (s : Bool) (n : Nat) : (signed s n).natAbs = n := by
  cases s <;> simp [signed]

lemma natAbs_value (x : BigIntImpl) : x.value.natAbs = x.magnitude := by
  rw [value, natAbs_signed]

lemma valid_zero : zero.Valid := ⟨⟨by decide, by decide, by decide⟩, by decide, by decide⟩

lemma value_zero : zero.value = 0 := rfl

/-- The constructor drops leading zeros and the sign of zero. -/
lemma make_spec (s : Bool) (used : Nat) (digits : Uint32List) (heven : digits.length % 2 = 0)
    (hused : used ≤ digits.length) (hleading : used % 2 = 1 → digits.digit used = 0) :
    ∃ r, make s used digits = .ok r ∧ r.Valid ∧ r.value = signed s (digits.value used) ∧ r.digits = digits := by
  obtain ⟨n, hn, hle, htop, hzeros⟩ := normalize_spec hused
  have h0 : n % 2 = 1 → digits.digit n = 0 := by
    intro hodd
    by_cases h : n = used
    · rw [h] at hodd ⊢
      exact hleading hodd
    · exact hzeros n le_rfl (by omega)
  have hlead : has_leading_zero n digits = .ok true := by
    rw [has_leading_zero]
    split
    · rfl
    · rw [read_eq (by omega), h0 (by omega)]
      rfl
  have hval : digits.value used = digits.value n := value_eq_of_zero hle hzeros
  refine ⟨⟨if n = 0 then false else s, digits, n⟩, ?_, ?_, ?_, rfl⟩
  · rw [make, hn, ok_bind, normalized, check_bind heven, hlead, ok_bind, check_true, ok_bind, pure_eq_ok]
  · exact ⟨⟨heven, hle.trans hused, h0⟩, htop, fun h => if_pos h⟩
  · rw [hval, value, magnitude]
    by_cases h : n = 0
    · simp [h, Uint32List.value]
    · simp [if_neg h]

variable {x y : BigIntImpl}

lemma Valid.magnitude_eq_zero_iff (hx : x.Valid) : x.magnitude = 0 ↔ x.used = 0 := by
  constructor
  · intro h
    by_contra hne
    have hpos : 0 < digit_base ^ (x.used - 1) := by positivity
    have hle := pow_le_value (b := digit_base) (Nat.pos_of_ne_zero hne) (hx.top_digit hne)
    exact absurd (hpos.trans_le hle) (by rw [← Uint32List.value]; rw [magnitude] at h; omega)
  · intro h
    rw [magnitude, h]
    rfl

/-- More digits make a larger number. -/
lemma Valid.magnitude_lt (hy : y.Valid) (h : x.used < y.used) : x.magnitude < y.magnitude :=
  calc x.magnitude < digit_base ^ x.used := x.digits.value_lt _
    _ ≤ digit_base ^ (y.used - 1) := Nat.pow_le_pow_right (by norm_num) (by omega)
    _ ≤ y.magnitude := pow_le_value (by omega) (hy.top_digit (by omega))

variable (hx : x.Valid)
include hx

lemma abs_compare_spec (hy : y.Valid) :
    ∃ c, abs_compare x y = .ok c ∧ c.sign = ((x.magnitude : Int) - y.magnitude).sign :=
  compare_digits_spec hx.used_le hy.used_le hy.magnitude_lt hx.magnitude_lt

/-- The opposite number shares the digits. -/
lemma neg_spec : ∃ r, neg x = .ok r ∧ r.Valid ∧ r.value = -x.value := by
  by_cases h0 : x.used = 0
  · refine ⟨x, if_pos h0, hx, ?_⟩
    rw [value, hx.magnitude_eq_zero_iff.mpr h0, signed_zero, neg_zero]
  · obtain ⟨r, hr, hok, hval, -⟩ := make_spec (!x.is_negative) _ _ hx.even_length hx.used_le hx.leading_zero
    exact ⟨r, by rw [neg, if_neg h0, hr], hok, by rw [hval, signed_not]; rfl⟩

lemma abs_spec : ∃ y, abs x = .ok y ∧ y.Valid ∧ y.value = x.magnitude := by
  rw [abs]
  cases hneg : x.is_negative with
  | true =>
    obtain ⟨y, hy, hok, hval⟩ := neg_spec hx
    refine ⟨y, hy, hok, ?_⟩
    rw [hval, value, hneg, signed, if_pos rfl, Int.neg_neg]
  | false => exact ⟨x, rfl, hx, by rw [value, hneg]; rfl⟩

/-- A small number has few digits. -/
lemma Valid.used_le_of_lt {n : Nat} (h : x.magnitude < digit_base ^ n) : x.used ≤ n := by
  by_contra hgt
  have hpow := Nat.pow_le_pow_right (show 0 < digit_base by norm_num) (show n ≤ x.used - 1 by omega)
  have hmag : digit_base ^ (x.used - 1) ≤ x.magnitude := pow_le_value (by omega) (hx.top_digit (by omega))
  omega

end

section
variable {x y : BigIntImpl} {s : Bool}

/-- An operand that is returned, or its opposite, has the sign that is asked for. -/
lemma set_sign_spec (hx : x.Valid) :
    ∃ r, (if x.is_negative = s then pure x else neg x) = Except.ok r ∧ r.Valid ∧ r.value = signed s x.magnitude := by
  by_cases hsign : x.is_negative = s
  · exact ⟨x, if_pos hsign, hx, by rw [value, hsign]⟩
  obtain ⟨r, hr, hok, hval⟩ := neg_spec hx
  refine ⟨r, by rw [if_neg hsign, hr], hok, ?_⟩
  rw [hval, value, ← signed_not, ← Bool.eq_not.mpr (Ne.symm hsign)]

lemma abs_add_longer_spec (hx : x.Valid) (hy : y.Valid) (hle : y.used ≤ x.used) (hs : x.used = 0 → s = false) :
    ∃ r, abs_add_longer x y s = .ok r ∧ r.Valid ∧ r.value = signed s (x.magnitude + y.magnitude) := by
  by_cases hx0 : x.used = 0
  · refine ⟨zero, by rw [abs_add_longer, if_pos hx0, hs hx0]; rfl, valid_zero, ?_⟩
    rw [hx.magnitude_eq_zero_iff.mpr hx0, hy.magnitude_eq_zero_iff.mpr (by omega), signed_zero, value_zero]
  by_cases hy0 : y.used = 0
  · obtain ⟨r, hr, hok, hval⟩ := set_sign_spec hx
    refine ⟨r, by rw [abs_add_longer, if_neg hx0, if_pos hy0, hr], hok, ?_⟩
    rw [hval, hy.magnitude_eq_zero_iff.mpr hy0, Nat.add_zero]
  obtain ⟨digits, hadd, hlen, hframe, hsum⟩ := abs_add_spec
    (show Operand.contents (.array x.digits) (new_digits (x.used + 1)) = x.digits from rfl) hle (by omega)
    hx.used_le hy.used_le (by rw [length_new_digits]; omega)
  rw [length_new_digits] at hlen
  obtain ⟨r, hr, hok, hval, -⟩ := make_spec s (x.used + 1) digits (by omega) (by omega)
    (fun _ => by rw [hframe _ (by omega), digit_new_digits])
  refine ⟨r, by rw [abs_add_longer, if_neg hx0, if_neg hy0, hadd, ok_bind, hr], hok, by rw [hval, hsum]; rfl⟩

lemma abs_add_set_sign_spec (hx : x.Valid) (hy : y.Valid) (hs : x.used ≠ 0) :
    ∃ r, abs_add_set_sign x y s = .ok r ∧ r.Valid ∧ r.value = signed s (x.magnitude + y.magnitude) := by
  rw [abs_add_set_sign]
  by_cases hlt : x.used < y.used
  · rw [if_pos hlt, Nat.add_comm]
    exact abs_add_longer_spec hy hx hlt.le (fun h => absurd h (by omega))
  · rw [if_neg hlt]
    exact abs_add_longer_spec hx hy (by omega) (fun h => absurd h hs)

lemma abs_sub_set_sign_spec (hx : x.Valid) (hy : y.Valid) (hs : x.used ≠ 0) (hle : y.magnitude ≤ x.magnitude) :
    ∃ r, abs_sub_set_sign x y s = .ok r ∧ r.Valid ∧ r.value = signed s (x.magnitude - y.magnitude) ∧
      (y.used ≠ 0 → r.digits.length = x.used + x.used % 2 ∧ r.digits.value x.used = x.magnitude - y.magnitude) := by
  obtain ⟨c, hc, hsign⟩ := abs_compare_spec hx hy
  have hnn : 0 ≤ c := (nonneg_iff_of_sign_eq hsign).mpr (by omega)
  have hchk : check (decide (0 ≤ c)) = .ok () := by rw [decide_eq_true hnn, check_true]
  by_cases hy0 : y.used = 0
  · obtain ⟨r, hr, hok, hval⟩ := set_sign_spec hx
    refine ⟨r, by rw [abs_sub_set_sign, hc, ok_bind, hchk, ok_bind, if_neg hs, if_pos hy0, hr], hok, ?_,
      fun h => absurd hy0 h⟩
    rw [hval, hy.magnitude_eq_zero_iff.mpr hy0, Nat.sub_zero]
  have hused : y.used ≤ x.used := by
    by_contra hlt
    exact absurd (hy.magnitude_lt (x := x) (by omega)) (by omega)
  obtain ⟨digits, hsub, hlen, hframe, hdiff⟩ := abs_sub_spec
    (show Operand.contents (.array x.digits) (new_digits x.used) = x.digits from rfl) hused (by omega)
    hx.used_le hy.used_le (by rw [length_new_digits]; omega) hle
  rw [length_new_digits] at hlen
  obtain ⟨r, hr, hok, hval, hdigs⟩ := make_spec s x.used digits (by omega) (by omega)
    (fun _ => by rw [hframe _ le_rfl, digit_new_digits])
  have hdifference : digits.value x.used = x.magnitude - y.magnitude := by
    rw [magnitude, magnitude, ← hdiff, Nat.add_sub_cancel]
  refine ⟨r, ?_, hok, by rw [hval, hdifference], fun _ => by rw [hdigs]; exact ⟨hlen, hdifference⟩⟩
  rw [abs_sub_set_sign, hc, ok_bind, hchk, ok_bind, if_neg hs, if_neg hy0, hsub, ok_bind, hr]

lemma signed_add_same (m n : Nat) : signed s m + signed s n = signed s (m + n) := by
  cases s
  · rfl
  · simp only [signed, if_pos]
    omega

lemma signed_add_not {m n : Nat} (h : n ≤ m) : signed s m + signed (!s) n = signed s (m - n) := by
  cases s <;> simp [signed] <;> omega

variable (hx : x.Valid)
include hx

/-- The difference of the absolute values, with the sign of the larger one. -/
lemma abs_difference_spec (hy : y.Valid) (hx0 : x.used ≠ 0) (hy0 : y.used ≠ 0) :
    ∃ r, (do if 0 ≤ (← abs_compare x y) then abs_sub_set_sign x y s else abs_sub_set_sign y x !s) = Except.ok r ∧
      r.Valid ∧ r.value = signed s x.magnitude + signed (!s) y.magnitude := by
  obtain ⟨c, hc, hsign⟩ := abs_compare_spec hx hy
  rw [hc, ok_bind]
  by_cases hnn : 0 ≤ c
  · have hle : y.magnitude ≤ x.magnitude := by
      have := (nonneg_iff_of_sign_eq hsign).mp hnn
      omega
    obtain ⟨r, hr, hok, hval, -⟩ := abs_sub_set_sign_spec hx hy hx0 hle
    exact ⟨r, by rw [if_pos hnn, hr], hok, by rw [signed_add_not hle, hval]⟩
  have hle : x.magnitude ≤ y.magnitude := by
    have := mt (nonneg_iff_of_sign_eq hsign).mpr hnn
    omega
  have hsum : signed s x.magnitude + signed (!s) y.magnitude = signed (!s) (y.magnitude - x.magnitude) := by
    rw [← signed_add_not hle, Bool.not_not, add_comm]
  obtain ⟨r, hr, hok, hval, -⟩ := abs_sub_set_sign_spec hy hx hy0 hle
  exact ⟨r, by rw [if_neg hnn, hr], hok, by rw [hsum, hval]⟩

lemma Valid.value_eq_zero (h : x.used = 0) : x.value = 0 := by
  rw [value, hx.magnitude_eq_zero_iff.mpr h, signed_zero]

variable (hy : y.Valid)
include hy

lemma add_spec : ∃ r, add x y = .ok r ∧ r.Valid ∧ r.value = x.value + y.value := by
  by_cases hx0 : x.used = 0
  · refine ⟨y, ?_, hy, by rw [hx.value_eq_zero hx0, zero_add]⟩
    rw [add, if_pos (is_zero_iff.mpr hx0), pure_eq_ok]
  by_cases hy0 : y.used = 0
  · refine ⟨x, ?_, hx, by rw [hy.value_eq_zero hy0, add_zero]⟩
    rw [add, if_neg (mt is_zero_iff.mp hx0), if_pos (is_zero_iff.mpr hy0), pure_eq_ok]
  rw [add, if_neg (mt is_zero_iff.mp hx0), if_neg (mt is_zero_iff.mp hy0)]
  by_cases hsign : x.is_negative = y.is_negative
  · rw [if_pos hsign, value, value, ← hsign, signed_add_same]
    exact abs_add_set_sign_spec hx hy hx0
  · rw [if_neg hsign, value, value, show y.is_negative = !x.is_negative from Bool.eq_not.mpr (Ne.symm hsign)]
    exact abs_difference_spec hx hy hx0 hy0

lemma sub_spec : ∃ r, sub x y = .ok r ∧ r.Valid ∧ r.value = x.value - y.value := by
  by_cases hx0 : x.used = 0
  · rw [sub, if_pos (is_zero_iff.mpr hx0), hx.value_eq_zero hx0, zero_sub]
    exact neg_spec hy
  by_cases hy0 : y.used = 0
  · refine ⟨x, ?_, hx, by rw [hy.value_eq_zero hy0, sub_zero]⟩
    rw [sub, if_neg (mt is_zero_iff.mp hx0), if_pos (is_zero_iff.mpr hy0), pure_eq_ok]
  rw [sub, if_neg (mt is_zero_iff.mp hx0), if_neg (mt is_zero_iff.mp hy0), value, value, sub_eq_add_neg, ← signed_not]
  by_cases hsign : x.is_negative = y.is_negative
  · rw [if_neg (not_not.mpr hsign), ← hsign]
    exact abs_difference_spec hx hy hx0 hy0
  · rw [if_pos hsign, ← show x.is_negative = !y.is_negative from Bool.eq_not.mpr hsign, signed_add_same]
    exact abs_add_set_sign_spec hx hy hx0

/-- The array of a difference of positive numbers has as many digits as that of the larger one. -/
lemma sub_of_le_spec (hx0 : x.used ≠ 0) (hy0 : y.used ≠ 0) (hsign : x.is_negative = y.is_negative)
    (hle : y.magnitude ≤ x.magnitude) : ∃ r, sub x y = .ok r ∧ r.Valid ∧ r.digits.length = x.used + x.used % 2 ∧
      r.digits.value x.used = x.magnitude - y.magnitude := by
  obtain ⟨c, hc, hcsign⟩ := abs_compare_spec hx hy
  have hnn : 0 ≤ c := (nonneg_iff_of_sign_eq hcsign).mpr (by omega)
  obtain ⟨r, hr, hok, -, hdigs⟩ := abs_sub_set_sign_spec hx hy hx0 hle
  refine ⟨r, ?_, hok, hdigs hy0⟩
  rw [sub, if_neg (mt is_zero_iff.mp hx0), if_neg (mt is_zero_iff.mp hy0), if_neg (not_not.mpr hsign), hc, ok_bind,
    if_pos hnn, hr]

/-- The sign of the result of a comparison is that of the difference. -/
lemma compare_to_spec : ∃ c, compare_to x y = .ok c ∧ c.sign = (x.value - y.value).sign := by
  obtain ⟨c, hc, hsign⟩ := abs_compare_spec hx hy
  by_cases hsame : x.is_negative = y.is_negative
  · refine ⟨_, by rw [compare_to, if_pos hsame, hc, ok_bind, pure_eq_ok], ?_⟩
    rw [value, value, ← hsame]
    cases x.is_negative with
    | false => exact hsign
    | true =>
      have hneg : signed true x.magnitude - signed true y.magnitude = -((x.magnitude : Int) - y.magnitude) := by
        simp only [signed, if_pos]
        omega
      rw [if_pos rfl, hneg, Int.zero_sub, Int.sign_neg, Int.sign_neg, hsign]
  refine ⟨_, by rw [compare_to, if_neg hsame, pure_eq_ok], ?_⟩
  have hne {z : BigIntImpl} (hz : z.Valid) (h : z.is_negative = true) : z.magnitude ≠ 0 := fun h0 => by
    rw [hz.zero_sign (hz.magnitude_eq_zero_iff.mp h0)] at h
    cases h
  rw [value, value, show y.is_negative = !x.is_negative from Bool.eq_not.mpr (Ne.symm hsame)]
  cases hneg : x.is_negative with
  | false =>
    have := hne hy (by rw [Bool.eq_not.mpr (Ne.symm hsame), hneg]; rfl)
    rw [Int.sign_eq_one_of_pos (a := _ - _) (by simp [signed]; omega)]
    rfl
  | true =>
    have := hne hx hneg
    rw [Int.sign_eq_neg_one_of_neg (a := _ - _) (by simp [signed]; omega)]
    rfl

lemma equals_spec : equals x y = .ok (decide (x.value = y.value)) := by
  obtain ⟨c, hc, hsign⟩ := compare_to_spec hx hy
  rw [equals, hc, ok_bind]
  congr 1
  have h0 : c = 0 ↔ x.value = y.value := by
    rw [← Int.sign_eq_zero_iff_zero, hsign, Int.sign_eq_zero_iff_zero, sub_eq_zero]
  by_cases h : x.value = y.value <;> simp [h, h0]

end

section
variable {x y : BigIntImpl}

lemma signed_mul (s t : Bool) (m n : Nat) : signed s m * signed t n = signed (s != t) (m * n) := by
  cases s <;> cases t <;> simp [signed]

lemma mul_spec (p : Primitives) (hx : x.Valid) (hy : y.Valid) :
    ∃ r, mul p x y = .ok r ∧ r.Valid ∧ r.value = x.value * y.value := by
  by_cases h0 : x.used = 0 ∨ y.used = 0
  · refine ⟨zero, by rw [mul, if_pos h0, pure_eq_ok], valid_zero, ?_⟩
    rcases h0 with h | h
    · rw [hx.value_eq_zero h, zero_mul, value_zero]
    · rw [hy.value_eq_zero h, mul_zero, value_zero]
  have hlength := length_new_digits (x.used + y.used)
  have hprod : x.magnitude * y.magnitude < digit_base ^ (x.used + y.used) := by
    rw [pow_add]
    exact Nat.mul_lt_mul'' (x.digits.value_lt _) (y.digits.value_lt _)
  have hfits : 0 + x.digits.value x.used * y.digits.value y.used <
      digit_base ^ (new_digits (x.used + y.used)).length := by
    rw [Nat.zero_add]
    exact hprod.trans_le (Nat.pow_le_pow_right (by norm_num) (by omega))
  obtain ⟨digits, hloop, hlen, htotal⟩ := mul_loop_spec p hx.toPadded hy.toPadded (y.used + 1)
    (by omega) (by omega) (dvd_zero _) (Nat.zero_le _) (by omega)
    (by simp [Uint32List.value]) hfits
  rw [Nat.zero_add] at htotal
  have hlt : digits.total < digit_base ^ (x.used + y.used) := htotal ▸ hprod
  obtain ⟨r, hr, hok, hval, -⟩ := make_spec (x.is_negative != y.is_negative) (x.used + y.used) digits (by omega)
    (by omega) (fun _ => digit_eq_zero_of_total_lt hlt le_rfl)
  refine ⟨r, by simp only [mul, if_neg h0, hloop, ok_bind, hr], hok, ?_⟩
  rw [hval, value_eq_total hlt (by omega), htotal, value, value, signed_mul]
  rfl

end

/-- The ring operations and the order are those of the integers, on numbers of any size and
sign; no method fails, in particular by an intermediate result that needs more than 64 bits,
and every result is represented as it has to be. -/
theorem operations_exact (p : Primitives) {x y : BigIntImpl} (hx : x.Valid) (hy : y.Valid) :
    (∃ r, add x y = .ok r ∧ r.Valid ∧ r.value = x.value + y.value) ∧
    (∃ r, sub x y = .ok r ∧ r.Valid ∧ r.value = x.value - y.value) ∧
    (∃ r, neg x = .ok r ∧ r.Valid ∧ r.value = -x.value) ∧
    (∃ r, mul p x y = .ok r ∧ r.Valid ∧ r.value = x.value * y.value) ∧
    (∃ c, compare_to x y = .ok c ∧ c.sign = (x.value - y.value).sign) ∧ equals x y = .ok (decide (x.value = y.value)) :=
  ⟨add_spec hx hy, sub_spec hx hy, neg_spec hx, mul_spec p hx hy, compare_to_spec hx hy, equals_spec hx hy⟩

/-- `2 ^ 32 + 5` and `-7`. -/
theorem operations_exact_twoDigits : ∃ r, mul .pure_dart ⟨false, [5, 1], 2⟩ ⟨true, [7, 0], 1⟩ = .ok r ∧ r.Valid ∧
      r.value = value ⟨false, [5, 1], 2⟩ * value ⟨true, [7, 0], 1⟩ :=
  (operations_exact .pure_dart
    ⟨⟨by decide, by decide, by decide⟩, by decide, by decide⟩
    ⟨⟨by decide, by decide, by decide⟩, by decide, by decide⟩).2.2.2.1

end BigIntImpl
end dart.bigint
