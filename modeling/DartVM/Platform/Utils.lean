import Mathlib.Data.Nat.Bitwise
import Mathlib.Data.Nat.Size
import DartVM.Fault

namespace dart.utils
open Nat

def is_power_of_two (x : Nat) : Bool := (x &&& (x - 1)) == 0 && x != 0

def is_aligned (x alignment offset : Nat) : Checked Bool := do
  check (is_power_of_two alignment)
  check (offset < alignment)
  return (x &&& (alignment - 1)) == offset

/-- `x & -alignment`, which clears the bits below a power of two. -/
def round_down (x alignment : Nat) : Checked Nat := do
  check (is_power_of_two alignment)
  return x - x % alignment

def round_up (x alignment offset : Nat) : Checked Nat := do
  check (offset < alignment)
  let rounded ← round_down (x + alignment - 1 + offset) alignment
  return rounded - offset

/-- One line of the bit trick below: every bit is copied `shift` places down. -/
def spread_bits (x shift : Nat) : Nat := x ||| (x >>> shift)

/-- The smallest power of two that is at least `x`, for a 64-bit `uintptr_t`. -/
def round_up_to_power_of_two (x : Nat) : Nat :=
  let x := (x + 2 ^ 64 - 1) % 2 ^ 64
  let x := spread_bits x 1
  let x := spread_bits x 2
  let x := spread_bits x 4
  let x := spread_bits x 8
  let x := spread_bits x 16
  let x := spread_bits x 32
  (x + 1) % 2 ^ 64

@[simp] lemma is_power_of_two_two_pow (k : Nat) : is_power_of_two (2 ^ k) = true := by
  simp [is_power_of_two, and_two_pow_sub_one_eq_mod]

lemma is_aligned_two_pow (x k : Nat) : is_aligned x (2 ^ k) 0 = .ok (decide (2 ^ k ∣ x)) := by
  have hpos : 0 < 2 ^ k := Nat.two_pow_pos k
  simp only [is_aligned, is_power_of_two_two_pow, check_true, ok_bind, hpos, decide_true, pure_eq_ok,
    and_two_pow_sub_one_eq_mod, dvd_iff_mod_eq_zero]
  rfl

lemma round_up_two_pow (x k : Nat) : ∃ rounded, round_up x (2 ^ k) 0 = .ok rounded ∧ x ≤ rounded := by
  have hpos : 0 < 2 ^ k := Nat.two_pow_pos k
  refine ⟨x + 2 ^ k - 1 - (x + 2 ^ k - 1) % 2 ^ k, by simp [round_up, round_down, hpos], ?_⟩
  omega

/-- The bits of `x` are those of `y`, each repeated on the `span` places below it. -/
private def Spread (y span x : Nat) : Prop :=
  ∀ i, x.testBit i = true ↔ ∃ d < span, y.testBit (i + d) = true

private lemma Spread.double {y span x : Nat} (h : Spread y span x) : Spread y (2 * span) (spread_bits x span) := by
  intro i
  rw [spread_bits, testBit_or, testBit_shiftRight, Bool.or_eq_true, h i, h (span + i)]
  constructor
  · rintro (⟨d, hd, hbit⟩ | ⟨d, hd, hbit⟩)
    · exact ⟨d, by omega, hbit⟩
    · exact ⟨span + d, by omega, by rwa [show i + (span + d) = span + i + d by omega]⟩
  · rintro ⟨d, hd, hbit⟩
    by_cases hlt : d < span
    · exact .inl ⟨d, hlt, hbit⟩
    · exact .inr ⟨d - span, by omega, by rwa [show span + i + (d - span) = i + d by omega]⟩

private lemma Spread.self (y : Nat) : Spread y 1 y := by
  intro i
  simp

/-- Spreading the bits of a 64-bit word over 64 places sets everything below its
highest bit. -/
private lemma Spread.full {y x : Nat} (hy : y < 2 ^ 64) (h : Spread y 64 x) : x = 2 ^ y.size - 1 := by
  apply eq_of_testBit_eq
  intro i
  rw [testBit_two_pow_sub_one, Bool.eq_iff_iff, h i, decide_eq_true_iff]
  constructor
  · rintro ⟨d, -, hbit⟩
    have hlt : i + d < y.size := lt_size.mpr (ge_two_pow_of_testBit hbit)
    omega
  · intro hi
    have hsize : y.size ≤ 64 := size_le.mpr hy
    have htop : 2 ^ (y.size - 1) ≤ y := lt_size.mp (by omega)
    have hlt : y < 2 ^ (y.size - 1 + 1) := by
      rw [show y.size - 1 + 1 = y.size by omega]
      exact lt_size_self y
    refine ⟨y.size - 1 - i, by omega, ?_⟩
    rw [show i + (y.size - 1 - i) = y.size - 1 by omega]
    exact testBit_of_two_pow_le_and_two_pow_add_one_gt htop hlt

/-- `RoundUpToPowerOfTwo` returns a power of two that is at least its argument,
as long as there is one in 64 bits. -/
lemma round_up_to_power_of_two_spec {x : Nat} (hpos : 0 < x) (hx : x ≤ 2 ^ 63) :
    round_up_to_power_of_two x = 2 ^ (x - 1).size ∧ x ≤ round_up_to_power_of_two x := by
  have hpred : (x + 2 ^ 64 - 1) % 2 ^ 64 = x - 1 := by omega
  have hfull := Spread.full (by omega) (Spread.self (x - 1)).double.double.double.double.double.double
  have hsize : (x - 1).size ≤ 63 := size_le.mpr (by omega)
  have hpow : 2 ^ (x - 1).size ≤ 2 ^ 63 := Nat.pow_le_pow_right (by omega) hsize
  have hpos' : 0 < 2 ^ (x - 1).size := Nat.two_pow_pos _
  have heq : round_up_to_power_of_two x = 2 ^ (x - 1).size := by
    rw [round_up_to_power_of_two, hpred]
    simp only [reduceMul, mul_one] at hfull
    simp only [hfull]
    omega
  have hlt := lt_size_self (x - 1)
  exact ⟨heq, by omega⟩

end dart.utils
