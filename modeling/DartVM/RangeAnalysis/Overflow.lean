import DartVM.RangeAnalysis.InferRange

namespace dart.range_analysis
open int64 Int Option range_analysis.Representation Token

variable {δ : Type} {defs : Definitions δ} {representation : Representation} {a b m : Int} {x : Int}

namespace Definitions

lemma Contains.is_unknown_min {value : δ → Int} {range : Range δ} (h : defs.Contains value range x) :
    range.min.is_unknown = false := by
  obtain ⟨low, -, hlo, -⟩ := h
  cases hmin : range.min with
  | unknown => simp only [hmin, Denotes] at hlo
  | _ => rfl

end Definitions

namespace Valuation
open Definitions
variable (v : Valuation defs) {left_range right_range range : Range δ} {left_defn : Option δ} {instr : BinaryIntegerOp}

section
variable (ha : defs.Contains v.value left_range a) (hb : defs.Contains v.value right_range b)
include ha hb

lemma infer_range_helper_spec (instr : BinaryIntegerOp) (initial : Range δ) (hdefn : v.IsLeftOperand left_defn a) :
    ∃ range instr', defs.infer_range_helper instr left_defn (some left_range) (some right_range) initial =
        .ok (instr', defs.clamp_range range instr.representation.to_range_size) ∧
      defs.transfer instr.op_kind left_range right_range left_defn = .ok range ∧
      (∀ m, instr.op_kind.exact a b = some m → defs.Contains v.value range m ∨ range = defs.full .int64) ∧
      (instr.is_truncating = false → instr'.can_overflow = false →
        ∀ y, defs.Contains v.value range y → defs.Within instr.representation.to_range_size y) := by
  obtain ⟨range, hok, ⟨x, hx⟩, hmem⟩ := v.transfer_spec instr.op_kind ha hb hdefn
  have hbinary := binary_op_eq hok hx
  have hknown : (left_range.min.is_unknown || right_range.min.is_unknown) = false := by
    rw [ha.is_unknown_min, hb.is_unknown_min, Bool.or_false]
  unfold infer_range_helper
  simp only [hknown, Bool.false_eq_true, if_false, hbinary, ok_bind, pure_eq_ok]
  split
  · rename_i htrunc
    exact ⟨range, instr, rfl, hok, hmem, fun h => absurd htrunc (by simp [h])⟩
  · obtain ⟨fits, hfits, hwithin⟩ := v.fits_spec instr.representation.to_range_size hx
    simp only [hfits, ok_bind]
    refine ⟨range, _, rfl, hok, hmem, ?_⟩
    intro _ hflag
    exact hwithin (by simpa [BinaryIntegerOp.set_can_overflow] using hflag)

end

/-- Where the result of an operation is representable, or its range has every number of the representation, the
clamped range contains the value that it produces. -/
lemma contains_produces {p : Int}
    (hmem : ∀ m, instr.op_kind.exact a b = some m → defs.Contains v.value range m ∨ range = defs.full .int64)
    (hwrap : ∀ m, instr.op_kind.exact a b = some m → instr.is_truncating = true →
      defs.Representable instr.representation m ∨
      ∀ x, defs.Representable instr.representation x → defs.Contains v.value range x)
    (hp : defs.produces instr a b = some p) :
    defs.Contains v.value (defs.clamp_range range instr.representation.to_range_size) p := by
  obtain ⟨m, hm, hp⟩ := bind_eq_some_iff.mp hp
  split at hp
  · rename_i hrep
    obtain rfl := some.inj hp
    rcases hmem m hm with hin | rfl
    · exact contains_clamp_range hin hrep.within
    · exact contains_clamp_range (contains_full hrep.within.fits) hrep.within
  · rename_i hrep
    split at hp
    · rename_i htrunc
      cases hp
      have hreduce : defs.Representable instr.representation (defs.reduce instr.representation m) := representable_reduce
      exact contains_clamp_range ((hwrap m hm htrunc).resolve_left hrep _ hreduce) hreduce.within
    · cases hp

end Valuation

namespace Definitions

/-- The numbers within the size of a signed representation are those of the representation. -/
lemma Within.representable (h : defs.Within representation.to_range_size x)
    (hsigned : representation ≠ .kUnboxedUint32) : defs.Representable representation x := by
  refine ⟨?_, fun h => absurd h hsigned⟩
  obtain ⟨hlo, hhi⟩ := h
  cases representation with
  | kTagged =>
    rw [to_range_size, toInt_min_constant_smi] at hlo
    rw [to_range_size, toInt_max_constant_smi] at hhi
    exact ⟨hlo, lt_of_le_sub_one hhi⟩
  | kUnboxedInt32 => exact ⟨hlo, lt_of_le_sub_one hhi⟩
  | kUnboxedUint32 => exact absurd rfl hsigned
  | kUnboxedInt64 =>
    exact ⟨hlo, lt_of_le_sub_one hhi⟩

/-- Only words of 64 bits have a size that the full range fits. -/
lemma not_within_full (value : δ → Int) (h : ¬(representation = .kUnboxedUint32 ∨ representation = .kUnboxedInt64)) :
    ∃ y, defs.Contains value (defs.full .int64) y ∧ ¬defs.Within representation.to_range_size y := by
  refine ⟨-2 ^ 63, contains_full ⟨le_rfl, by norm_num⟩, ?_⟩
  rintro ⟨hlo, -⟩
  cases representation with
  | kTagged =>
    have hmin := defs.kSmiMin_le
    rw [to_range_size, toInt_min_constant_smi] at hlo
    omega
  | kUnboxedInt32 =>
    simp only [to_range_size, min_constant] at hlo
    exact absurd hlo (by decide)
  | _ => simp at h

end Definitions

namespace BinaryIntegerOp
open Definitions

variable (instr : BinaryIntegerOp) (v : Valuation defs) (left_range right_range : Range δ) (left_defn : Option δ)

/-- Values of the inputs that the ranges allow. -/
structure Operands (a b : Int) : Prop where
  left : defs.Contains v.value left_range a
  right : defs.Contains v.value right_range b
  is_left : v.IsLeftOperand left_defn a
  left_representable : defs.Representable instr.representation a
  right_representable : defs.Representable instr.right_representation b

/-- `InferRangeHelper` stores a range that contains the value produced from any operands in
the ranges, and an overflow flag that it clears is not needed. -/
def RangeSound : Prop :=
  ∀ (initial : Range δ) (a b : Int), instr.Operands v left_range right_range left_defn a b →
    ∃ instr' range, defs.infer_range_helper instr left_defn (some left_range) (some right_range) initial =
        .ok (instr', range) ∧
      (∀ p, defs.produces instr a b = some p → defs.Contains v.value range p) ∧
      (instr.is_truncating = false → instr'.can_overflow = false →
        ∀ m, instr.op_kind.exact a b = some m → defs.Representable instr.representation m)

/-- A truncating operation cuts off a result of operands in the ranges, and `Range::BinaryOp`
gives a range that leaves out some number of the representation. -/
def Wraps : Prop :=
  instr.is_truncating = true ∧
    (∃ a b m, instr.Operands v left_range right_range left_defn a b ∧ instr.op_kind.exact a b = some m ∧
      ¬defs.Representable instr.representation m) ∧
    ∃ range x, defs.transfer instr.op_kind left_range right_range left_defn = .ok range ∧
      defs.Representable instr.representation x ∧ ¬defs.Contains v.value range x

variable {instr v left_range right_range left_defn}

/-- Without `Wraps`, every result is representable or every number of the representation is in the range. -/
lemma representable_or_covers (h : ¬instr.Wraps v left_range right_range left_defn)
    (hop : instr.Operands v left_range right_range left_defn a b) {range : Range δ}
    (hok : defs.transfer instr.op_kind left_range right_range left_defn = .ok range)
    (hex : instr.op_kind.exact a b = some m) (htrunc : instr.is_truncating = true) :
    defs.Representable instr.representation m ∨
      ∀ x, defs.Representable instr.representation x → defs.Contains v.value range x := by
  by_contra! hnot
  obtain ⟨hm, x, hx, hout⟩ := hnot
  exact h ⟨htrunc, ⟨a, b, m, hop, hex, hm⟩, range, x, hok, hx, hout⟩

/-- `InferRangeHelper` is right unless a truncating operation wraps around, where `Clamp` saturates. -/
theorem rangeSound_of_not_wraps (h : ¬instr.Wraps v left_range right_range left_defn) :
    instr.RangeSound v left_range right_range left_defn := by
  intro initial a b hop
  obtain ⟨range, instr', hok, htransfer, hmem, hwithin⟩ :=
    v.infer_range_helper_spec hop.left hop.right instr initial hop.is_left
  refine ⟨instr', _, hok, ?_, ?_⟩
  · intro p hp
    exact v.contains_produces hmem (fun m hm => representable_or_covers h hop htransfer hm) hp
  · intro htrunc hflag m hm
    have hnarrow : ¬(instr.representation = .kUnboxedUint32 ∨ instr.representation = .kUnboxedInt64) := by
      intro hwide
      rw [instr.truncating hwide] at htrunc
      cases htrunc
    have hwithin := hwithin htrunc hflag
    rcases hmem m hm with hin | rfl
    · exact (hwithin m hin).representable (fun h => hnarrow (.inl h))
    · obtain ⟨y, hy, hout⟩ : ∃ y, defs.Contains v.value (defs.full .int64) y ∧ _ := not_within_full v.value hnarrow
      exact absurd (hwithin y hy) hout

end BinaryIntegerOp

/-- One definition about which nothing is known. -/
def unrelated : Definitions Unit where
  kSmiBits := kSmiBits64
  kSmiBits_le := Nat.le_refl kSmiBits64
  smi_constant _ := none
  is_array_length _ := false
  range _ := none
  order _ := 0

def unrelatedZero : Valuation unrelated where
  value _ := 0
  acyclic := by
    rintro _ _ ⟨⟩
  constant _ _ h := by cases h
  within _ _ h := by cases h

namespace BinaryIntegerOp
open Definitions

/-- A truncating shift of small numbers by one, whose results are all representable. -/
theorem rangeSound_of_not_wraps_shift : (binary_smi_op .kSHL).mark_truncating.RangeSound unrelatedZero
    ⟨.constant 0, .constant 1⟩ ⟨.constant 1, .constant 1⟩ none := by
  refine rangeSound_of_not_wraps ?_
  rintro ⟨-, ⟨a, b, m, hop, hex, hm⟩, -⟩
  have ha : 0 ≤ a ∧ a ≤ 1 := contains_constants.mp hop.left
  have hb : 1 ≤ b ∧ b ≤ 1 := contains_constants.mp hop.right
  obtain rfl : b = 1 := by omega
  obtain rfl | rfl : a = 0 ∨ a = 1 := by omega
  all_goals
    cases hex
    exact hm (by decide)

/-- A left shift marked by `OptimizeLeftShiftBitAndSmiOp`. Its range is the largest small
integer alone, by which `Canonicalize` replaces it, but it produces the smallest one. -/
theorem infer_range_helper_truncated_shift :
    ∃ range, unrelated.infer_range_helper (binary_smi_op .kSHL).mark_truncating none
        (some ⟨.constant 2305843009213693952, .constant 4611686018427387903⟩) (some ⟨.constant 1, .constant 1⟩)
        ⟨.unknown, .unknown⟩ = .ok ((binary_smi_op .kSHL).mark_truncating, range) ∧
      range.singleton = some 4611686018427387903 ∧
      unrelated.Contains unrelatedZero.value ⟨.constant 2305843009213693952, .constant 4611686018427387903⟩ (2 ^ 61) ∧
      unrelated.Contains unrelatedZero.value ⟨.constant 1, .constant 1⟩ 1 ∧
      unrelated.produces (binary_smi_op .kSHL).mark_truncating (2 ^ 61) 1 = some (-2 ^ 62) ∧
      ¬unrelated.Contains unrelatedZero.value range (-2 ^ 62) := by
  refine ⟨⟨.constant 4611686018427387903, .constant 4611686018427387903⟩, rfl, rfl, ?_, ?_, by decide +kernel, ?_⟩
  · exact contains_constants.mpr ⟨by decide, by decide⟩
  · exact contains_constants.mpr ⟨by decide, by decide⟩
  · rw [contains_constants]
    decide

end BinaryIntegerOp
end dart.range_analysis
