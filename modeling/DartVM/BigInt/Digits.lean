import Mathlib.Data.List.GetD
import DartVM.Fault
import DartVM.Lib.Positional

namespace dart.bigint
open positional List Nat

/-- Bits per digit. -/
abbrev digit_bits : Nat := 32

abbrev digit_base : Nat := 2 ^ 32

abbrev digit_mask : Nat := 2 ^ 32 - 1

/-- Bits per half digit. -/
abbrev half_digit_bits : Nat := 16

abbrev half_digit_mask : Nat := 2 ^ 16 - 1

/-- An array of 32-bit words. -/
abbrev Uint32List := List (BitVec 32)

/-- A value that a signed 64-bit `int` holds. The sums that are checked have no negative
summand, so that none of these is too large when the sum is not. -/
def fit (value : Nat) : Checked Nat := if value < 2 ^ 63 then .ok value else .error .overflow

lemma fit_eq {value : Nat} (h : value < 2 ^ 63) : fit value = .ok value := if_pos h

namespace Uint32List

section
variable (digits : Uint32List)

def read (i : Nat) : Checked Nat :=
  match digits[i]? with
  | some digit => .ok digit.toNat
  | none => .error .out_of_bounds

/-- The lower 32 bits of the value are stored. -/
def write (i : Nat) (value : Int) : Checked Uint32List :=
  if i < digits.length then .ok (digits.set i (BitVec.ofInt 32 value)) else .error .out_of_bounds

/-- The digit at a place, zero beyond the end of the array. -/
def digit (i : Nat) : Nat := (digits.getD i 0).toNat

/-- The number that the first `n` digits represent. -/
def value (digits : Uint32List) (n : Nat) : Nat := positional.value digit_base digits.digit n

/-- The number that `n` digits from place `i` on represent. -/
def segment (i n : Nat) : Nat := positional.value digit_base (fun k => digits.digit (i + k)) n

/-- The number that all digits represent. -/
def total : Nat := digits.value digits.length

end

variable {digits : Uint32List} {i n : Nat} {v : Nat}

lemma digit_lt (digits : Uint32List) (i : Nat) : digits.digit i < digit_base := (digits.getD i 0).isLt

lemma digit_eq_zero (h : digits.length ≤ i) : digits.digit i = 0 := by
  rw [digit, getD_eq_default _ _ h]
  rfl

section
variable (digits : Uint32List)

lemma value_lt (n : Nat) : digits.value n < digit_base ^ n := positional.value_lt digits.digit_lt

lemma segment_lt (i n : Nat) : digits.segment i n < digit_base ^ n := positional.value_lt fun _ => digits.digit_lt _

lemma value_succ (n : Nat) : digits.value (n + 1) = digits.value n + digits.digit n * digit_base ^ n :=
  positional.value_succ

lemma value_add (m n : Nat) : digits.value (m + n) = digits.value m + digit_base ^ m * digits.segment m n :=
  positional.value_add

@[simp] lemma segment_one (i : Nat) : digits.segment i 1 = digits.digit i := value_one

@[simp] lemma segment_zero_left (n : Nat) : digits.segment 0 n = digits.value n := by
  simp [segment, value]

lemma segment_succ (i n : Nat) :
    digits.segment i (n + 1) = digits.segment i n + digits.digit (i + n) * digit_base ^ n := positional.value_succ

lemma segment_two (i : Nat) : digits.segment i 2 = digits.digit i + digits.digit (i + 1) * digit_base := by
  rw [segment_succ, segment_one, pow_one]

lemma segment_succ' (i n : Nat) :
    digits.segment i (n + 1) = digits.digit i + digit_base * digits.segment (i + 1) n := by
  rw [segment, value_succ', segment]
  simp [add_assoc, add_comm 1]

lemma segment_add (i m n : Nat) :
    digits.segment i (m + n) = digits.segment i m + digit_base ^ m * digits.segment (i + m) n := by
  rw [segment, positional.value_add, segment, segment]
  simp [add_assoc]

lemma value_mono {m n : Nat} (h : m ≤ n) : digits.value m ≤ digits.value n := positional.value_mono h

end

lemma segment_eq_value {a w : Nat} (h : a + w ≤ n) :
    digits.segment a w = digits.value n / digit_base ^ a % digit_base ^ w := by
  rw [value, value_div_pow digits.digit_lt (by omega), value_mod_pow (fun _ => digits.digit_lt _) (by omega), segment]

lemma digit_eq_total (h : i < digits.length) : digits.digit i = digits.total / digit_base ^ i % digit_base :=
  (digit_eq digits.digit_lt h).symm

/-- A number that needs no more than `n` places has zeros from place `n` on. -/
lemma digit_eq_zero_of_total_lt (h : digits.total < digit_base ^ n) (hi : n ≤ i) : digits.digit i = 0 := by
  by_cases hlen : i < digits.length
  · rw [digit_eq_total hlen, Nat.div_eq_of_lt (h.trans_le (Nat.pow_le_pow_right (by norm_num) hi)), Nat.zero_mod]
  · exact digit_eq_zero (by omega)

lemma value_eq_total (h : digits.total < digit_base ^ n) (hn : n ≤ digits.length) : digits.value n = digits.total :=
  (value_eq_of_zero hn fun _ hk _ => digit_eq_zero_of_total_lt h hk).symm

lemma read_eq (h : i < digits.length) : digits.read i = .ok (digits.digit i) := by
  rw [read, digit, getElem?_eq_getElem h, getD_eq_getElem _ _ h]

/-- A digit that is stored takes the place of one digit and leaves the others. -/
lemma write_eq (h : i < digits.length) (hv : v < digit_base) : ∃ digits', digits.write i v = .ok digits' ∧
    digits'.length = digits.length ∧ digits'.digit = Function.update digits.digit i v := by
  refine ⟨_, if_pos h, length_set, ?_⟩
  funext k
  rw [digit, getD_eq_getElem?_getD, getElem?_set]
  by_cases hk : i = k
  · subst hk
    rw [if_pos rfl, if_pos h, Function.update_self, Option.getD_some, BitVec.ofInt_natCast,
      BitVec.toNat_ofNat, mod_eq_of_lt hv]
  · rw [if_neg hk, Function.update_of_ne (Ne.symm hk), ← getD_eq_getElem?_getD]
    rfl

/-- A negative value is stored as its two's complement. -/
lemma write_neg_one (digits : Uint32List) (i : Nat) : digits.write i (-1) = digits.write i ((2 ^ 32 - 1 : Nat) : Int) := by
  rw [write, write, show BitVec.ofInt 32 (-1) = BitVec.ofInt 32 ((2 ^ 32 - 1 : Nat) : Int) by decide]

/-- A digit that is stored changes the number by the difference at its place. -/
lemma write_total (h : i < digits.length) (hv : v < digit_base) :
    ∃ digits', digits.write i v = .ok digits' ∧ digits'.length = digits.length ∧
      digits'.digit = Function.update digits.digit i v ∧
      digits'.total + digits.digit i * digit_base ^ i = digits.total + v * digit_base ^ i := by
  obtain ⟨digits', hwr, hlen, hdig⟩ := write_eq h hv
  refine ⟨digits', hwr, hlen, hdig, ?_⟩
  rw [total, value, hlen, hdig]
  exact value_update v h

end Uint32List

/-- Digits that may also be processed in pairs: the array has an even number of digits, and
the unused digit in a pair with the most significant one is zero. -/
structure Padded (digits : Uint32List) (used : Nat) : Prop where
  even_length : digits.length % 2 = 0
  used_le : used ≤ digits.length
  leading_zero : used % 2 = 1 → digits.digit used = 0

/-- A new array of even length. -/
def new_digits (length : Nat) : Uint32List := List.replicate (length + (length &&& 1)) 0

@[simp] lemma length_new_digits (length : Nat) : (new_digits length).length = length + length % 2 := by
  rw [new_digits, length_replicate, and_one_is_mod]

@[simp] lemma digit_new_digits (length i : Nat) : (new_digits length).digit i = 0 := by
  rw [Uint32List.digit, new_digits, getD_eq_getElem?_getD, getElem?_getD_replicate_default_eq]
  rfl

@[simp] lemma value_new_digits (length n : Nat) : (new_digits length).value n = 0 :=
  value_eq_zero fun _ _ => digit_new_digits ..

@[simp] lemma total_new_digits (length : Nat) : (new_digits length).total = 0 := value_new_digits ..

/-- An array that is read by a function which writes to an array: another one, or the
array that is written to. -/
inductive Operand where
  | array (digits : Uint32List)
  | result

/-- What the operand holds when the array written to holds the given digits. -/
def Operand.contents (operand : Operand) (result_digits : Uint32List) : Uint32List :=
  match operand with
  | .array digits => digits
  | .result => result_digits

def Operand.read (operand : Operand) (result_digits : Uint32List) (i : Nat) : Checked Nat :=
  (operand.contents result_digits).read i

/-- The number of significant digits. -/
def normalize (digits : Uint32List) : Nat → Checked Nat
  | 0 => .ok 0
  | used + 1 => do
    if (← digits.read used) = 0 then normalize digits used else return used + 1

lemma normalize_spec {digits : Uint32List} {used : Nat} (h : used ≤ digits.length) :
    ∃ n, normalize digits used = .ok n ∧ n ≤ used ∧ (n ≠ 0 → digits.digit (n - 1) ≠ 0) ∧
      ∀ k, n ≤ k → k < used → digits.digit k = 0 := by
  induction used with
  | zero => exact ⟨0, rfl, le_rfl, fun h => absurd rfl h, fun k _ hk => absurd hk (not_lt_zero k)⟩
  | succ used ih =>
    rw [normalize, Uint32List.read_eq (by omega), ok_bind]
    by_cases h0 : digits.digit used = 0
    · obtain ⟨n, hn, hle, htop, hzeros⟩ := ih (by omega)
      refine ⟨n, by rw [if_pos h0, hn], by omega, htop, fun k hnk hk => ?_⟩
      by_cases hlast : k = used
      · rw [hlast, h0]
      · exact hzeros k hnk (by omega)
    · exact ⟨used + 1, by rw [if_neg h0]; rfl, le_rfl, fun _ => h0, fun k _ hk => by omega⟩

end dart.bigint
