import DartVM.RangeAnalysis.Products
import DartVM.RangeAnalysis.Shifts
import DartVM.RangeAnalysis.Sums

namespace dart.range_analysis
open int64 utils Definitions
variable {δ : Type} {defs : Definitions δ}

namespace Valuation
variable (v : Valuation defs) {left_range right_range range : Range δ} {a b x : Int}

lemma bit_size_spec (hx : defs.Contains v.value range x) : ∃ k, defs.bit_size range = .ok k ∧ k ≤ 63 ∧ InBits k x := by
  obtain ⟨low, high, hlo, hhi, -, -, hle, hge⟩ := v.constant_bounds_spec hx
  obtain ⟨k, hk, hk63, hbits⟩ := bit_length_spec low
  obtain ⟨l, hl, hl63, hbits'⟩ := bit_length_spec high
  refine ⟨Nat.max k l, ?_, Nat.max_le.mpr ⟨hk63, hl63⟩, ?_⟩
  · rw [bit_size, hlo, ok_bind, hhi, ok_bind, hk, ok_bind, hl, ok_bind, pure_eq_ok]
  · exact (hbits.mono (Nat.le_max_left k l)).between (hbits'.mono (Nat.le_max_right k l)) hle hge

lemma is_positive_spec (hx : defs.Contains v.value range x) :
    ∃ positive, defs.is_positive range = .ok positive ∧ (positive = true → 0 ≤ x) := by
  obtain ⟨low, high, -, -, hlo, -, hle, -⟩ := v.constant_bounds_spec hx
  refine ⟨decide (low.toInt ≥ 0), ?_, fun hpos => (of_decide_eq_true hpos).trans hle⟩
  rw [is_positive, only_greater_than_or_equal_to, hlo, ok_bind, pure_eq_ok]

variable (ha : defs.Contains v.value left_range a) (hb : defs.Contains v.value right_range b)
include ha hb

/-- A bitwise operation needs no more bits than its operands, and keeps the sign of
operands that are not negative. -/
lemma bitwise_op_spec {f : Int → Int → Int} (hbits : ∀ {k}, InBits k a → InBits k b → InBits k (f a b))
    (hnn : 0 ≤ a → 0 ≤ b → 0 ≤ f a b) :
    defs.Admits v.value (defs.bitwise_op left_range right_range) (some (f a b)) := by
  obtain ⟨k, hk, hk63, hak⟩ := v.bit_size_spec ha
  obtain ⟨l, hl, hl63, hbl⟩ := v.bit_size_spec hb
  obtain ⟨p, hp, hpos⟩ := v.is_positive_spec ha
  obtain ⟨q, hq, hpos'⟩ := v.is_positive_spec hb
  have hn : Nat.max k l ≤ 63 := Nat.max_le.mpr ⟨hk63, hl63⟩
  have hres : InBits (Nat.max k l) (f a b) := hbits (hak.mono (Nat.le_max_left k l)) (hbl.mono (Nat.le_max_right k l))
  rw [bitwise_op, hk, ok_bind, hl, ok_bind, hp, ok_bind, hq, ok_bind]
  generalize Nat.max k l = n at hn hres
  have hpow0 : (0 : Int) < 2 ^ n := by positivity
  have hpow63 : (2 : Int) ^ n ≤ 2 ^ 63 := pow_le_pow_right₀ (by norm_num) hn
  have hlimit : (2 : Int) ^ n % 2 ^ 64 = 2 ^ n := Int.emod_eq_of_lt hpow0.le (by omega)
  have hlowFits : Fits (-2 ^ n) := ⟨by omega, by omega⟩
  have hhighFits : Fits (2 ^ n - 1) := ⟨by omega, by omega⟩
  obtain ⟨hlo, hhi⟩ := hres
  refine admits_some rfl ?_
  rw [hlimit, contains_constants, hhighFits.toInt_ofInt]
  refine ⟨?_, by omega⟩
  split
  · rename_i hsigns
    rw [Bool.and_eq_true] at hsigns
    rw [Int64.toInt_zero]
    exact hnn (hpos hsigns.1) (hpos' hsigns.2)
  · rw [hlowFits.toInt_ofInt]
    exact hlo

lemma and_spec : defs.Admits v.value (defs.and left_range right_range) (Token.kBIT_AND.exact a b) := by
  obtain ⟨low, high, hlo, hhi, -, -, hle, hge⟩ := v.constant_bounds_spec ha
  obtain ⟨low', high', hlo', hhi', -, -, hle', hge'⟩ := v.constant_bounds_spec hb
  rw [Definitions.and, hlo', ok_bind]
  split
  · rename_i hpos
    obtain ⟨hland, hland'⟩ := land_le_right (y := b) (by omega)
    refine Definitions.admits_some (by rw [hhi', ok_bind, pure_eq_ok]) ?_
    rw [Definitions.contains_constants, Int64.toInt_zero]
    exact ⟨hland, by omega⟩
  · rw [hlo, ok_bind]
    split
    · rename_i hpos
      obtain ⟨hland, hland'⟩ := land_le_left (x := a) (by omega)
      refine Definitions.admits_some (by rw [hhi, ok_bind, pure_eq_ok]) ?_
      rw [Definitions.contains_constants, Int64.toInt_zero]
      exact ⟨hland, by omega⟩
    · exact v.bitwise_op_spec ha hb inBits_land fun ha0 _ => (land_le_left ha0).1

lemma or_spec : defs.Admits v.value (defs.bitwise_op left_range right_range) (Token.kBIT_OR.exact a b) :=
  v.bitwise_op_spec ha hb inBits_lor lor_nonneg

lemma xor_spec : defs.Admits v.value (defs.bitwise_op left_range right_range) (Token.kBIT_XOR.exact a b) :=
  v.bitwise_op_spec ha hb inBits_xor xor_nonneg

end Valuation

open int64 Definitions
variable {δ : Type} {defs : Definitions δ} {left_defn : Option δ}
  (v : Valuation defs) {left_range right_range : Range δ}

/-- Every transfer function returns a range that contains the results of the operator. -/
lemma Valuation.transfer_spec (op : Token) {a b : Int} (ha : defs.Contains v.value left_range a)
    (hb : defs.Contains v.value right_range b) (hdefn : v.IsLeftOperand left_defn a) :
    defs.Admits v.value (defs.transfer op left_range right_range left_defn) (op.exact a b) := by
  cases op with
  | kADD => exact v.add_spec ha hb hdefn
  | kSUB => exact v.sub_spec ha hb hdefn
  | kMUL => exact v.mul_spec ha hb
  | kTRUNCDIV => exact v.trunc_div_spec ha hb
  | kMOD => exact v.mod_spec hb
  | kSHL => exact v.shl_spec ha hb
  | kSHR => exact v.shr_spec ha hb
  | kUSHR => exact v.ushr_spec ha hb
  | kBIT_AND => exact v.and_spec ha hb
  | kBIT_OR => exact v.or_spec ha hb
  | kBIT_XOR => exact v.xor_spec ha hb
  | other => exact admits_full rfl

/-- Ranges that are not empty are sane. -/
lemma Definitions.binary_op_eq {value : δ → Int} {op : Token} {left_range right_range result : Range δ} {x : Int}
    (hok : defs.transfer op left_range right_range left_defn = .ok result)
    (hx : defs.Contains value result x) : defs.binary_op op left_range right_range left_defn = .ok result := by
  rw [binary_op, hok, ok_bind, hx.is_sane, check_true, ok_bind, pure_eq_ok]

/-- `Range::BinaryOp` violates no assertion and does no arithmetic that overflows, its
constant boundaries are in order, and it contains what the operator computes. -/
theorem Valuation.binary_op_sound (v : Valuation defs) (op : Token) {left_range right_range : Range δ}
    {left_defn : Option δ} {a b : Int} (ha : defs.Contains v.value left_range a)
    (hb : defs.Contains v.value right_range b) (hdefn : v.IsLeftOperand left_defn a) :
    ∃ result, defs.binary_op op left_range right_range left_defn = .ok result ∧
      (∀ min max, result.min = .constant min → result.max = .constant max → min.toInt ≤ max.toInt) ∧
      ∀ r, op.eval a b = some r → defs.Contains v.value result r := by
  obtain ⟨result, hok, ⟨x, hx⟩, hmem⟩ := v.transfer_spec op ha hb hdefn
  refine ⟨result, binary_op_eq hok hx, ?_, ?_⟩
  · intro min max hmin hmax
    obtain ⟨low, high, hlo, hhi, hle, hge⟩ := hx
    rw [hmin] at hlo
    rw [hmax] at hhi
    obtain rfl := hlo
    obtain rfl := hhi
    exact hle.trans hge
  · intro r hr
    obtain ⟨m, hm, rfl⟩ := Option.map_eq_some_iff.mp hr
    exact contains_wrap (hmem m hm)

/-- One definition, an array length of at most one hundred. -/
def oneLength : Definitions Unit where
  kSmiBits := kSmiBits64
  kSmiBits_le := Nat.le_refl kSmiBits64
  smi_constant _ := none
  is_array_length _ := true
  range _ := some ⟨.constant 0, .constant 100⟩
  order _ := 0

/-- The length is five. -/
def lengthFive : Valuation oneLength where
  value _ := 5
  acyclic := by
    rintro _ _ ⟨⟩ _ ⟨_, h | h⟩ <;> cases h
  constant _ _ h := by cases h
  within _ _ h := by
    cases h
    exact ⟨0, 100, rfl, rfl, by decide, by decide⟩

/-- An index below the length, plus one. -/
theorem Valuation.binary_op_sound_index_succ :
    ∃ result, oneLength.binary_op .kADD ⟨.constant 0, .symbol () (-1)⟩ ⟨.constant 1, .constant 1⟩ none = .ok result ∧
      oneLength.Contains lengthFive.value result 5 := by
  have hidx : oneLength.Contains lengthFive.value ⟨.constant 0, .symbol () (-1)⟩ 4 :=
    ⟨0, 4, rfl, ⟨by decide, ⟨by decide, by decide⟩, rfl⟩, by decide, by decide⟩
  have hone : oneLength.Contains lengthFive.value ⟨.constant 1, .constant 1⟩ 1 :=
    ⟨1, 1, rfl, rfl, by decide, by decide⟩
  have hdefn : lengthFive.IsLeftOperand none 4 := fun _ h => by cases h
  obtain ⟨result, hok, -, hmem⟩ := Valuation.binary_op_sound lengthFive .kADD hidx hone hdefn
  exact ⟨result, hok, hmem 5 rfl⟩

end dart.range_analysis
