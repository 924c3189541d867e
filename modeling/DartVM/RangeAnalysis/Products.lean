import Mathlib.Algebra.Order.Ring.Abs
import DartVM.RangeAnalysis.Semantics

namespace dart.range_analysis
open int64 utils Definitions Int Int64
variable {δ : Type} {defs : Definitions δ}

lemma abs_eq_ite (x : Int) : |x| = if 0 ≤ x then x else -x := by
  split
  · exact abs_of_nonneg (by omega)
  · exact abs_of_neg (by omega)

namespace Valuation
variable (v : Valuation defs) {left_range right_range range : Range δ} {a b x : Int}

/-- What is known about the absolute values in a range: `low` and `high` are its constant
bounds, and the largest absolute value is exact unless it is saturated. -/
structure AbsBounds (low high abs_min abs_max x : Int) : Prop where
  low_le : low ≤ x
  le_high : x ≤ high
  min_nonneg : 0 ≤ abs_min
  min_le_max : abs_min ≤ abs_max
  min_eq : 0 ≤ low → abs_min = low
  max_eq : 0 ≤ low → abs_max = high
  min_le : 0 ≤ low ∨ high ≤ 0 → abs_min ≤ |x|
  le_max : abs_max < 2 ^ 63 - 1 ∨ low ≠ -2 ^ 63 → |x| ≤ abs_max

lemma constant_abs_spec (hx : defs.Contains v.value range x) :
    ∃ low high abs_min abs_max : Int64, defs.constant_min range .int64 = .ok low ∧
      defs.lower_bound range.min = .ok low ∧ defs.upper_bound range.max = .ok high ∧
      defs.constant_abs_min range = .ok abs_min ∧ defs.constant_abs_max range = .ok abs_max ∧
      AbsBounds low.toInt high.toInt abs_min.toInt abs_max.toInt x := by
  obtain ⟨low, high, hlo, hhi, hlo', hhi', hle, hge⟩ := v.constant_bounds_spec hx
  obtain ⟨c, hc, hc0, hclow, hchigh, hceq⟩ := abs_with_saturation_spec low
  obtain ⟨d, hd, hd0, hdlow, hdhigh, hdeq⟩ := abs_with_saturation_spec high
  obtain ⟨hcmin, hcmax⟩ := fits_toInt low
  obtain ⟨hdmin, hdmax⟩ := fits_toInt high
  have habs : defs.constant_abs range = .ok (c, d) := by
    rw [constant_abs, hlo, ok_bind, hc, ok_bind, hhi, ok_bind, hd, ok_bind, pure_eq_ok]
  refine ⟨low, high, if c.toInt < d.toInt then c else d, if c.toInt > d.toInt then c else d, hlo, hlo', hhi',
    by rw [constant_abs_min, habs]; rfl, by rw [constant_abs_max, habs]; rfl, ?_⟩
  have hmin : (if c.toInt < d.toInt then c else d).toInt = if c.toInt < d.toInt then c.toInt else d.toInt := by
    split <;> rfl
  have hmax : (if c.toInt > d.toInt then c else d).toInt = if c.toInt > d.toInt then c.toInt else d.toInt := by
    split <;> rfl
  rw [abs_eq_ite] at hclow hchigh hceq hdlow hdhigh hdeq
  constructor
  all_goals try rw [abs_eq_ite]
  all_goals omega

/-- The product of the largest absolute values fits where `Mul` multiplies them. -/
lemma mul_max_fits {left_max right_max : Int} (hl : 0 ≤ left_max)
    (h : left_max = 0 ∨ right_max ≤ (2 ^ 63 - 1) / left_max) : left_max * right_max ≤ 2 ^ 63 - 1 := by
  rcases h with rfl | hle
  · norm_num
  rcases hl.eq_or_lt with rfl | hpos
  · norm_num
  · rw [mul_comm]
    exact (Int.le_ediv_iff_mul_le hpos).mp hle

/-- Where no operand can change its sign, a product of two operands of the same sign is
the product of the absolute values. -/
lemma mul_eq_abs_mul_abs (h : 0 ≤ a ∧ 0 ≤ b ∨ a ≤ 0 ∧ b ≤ 0) : a * b = |a| * |b| := by
  rcases h with ⟨ha, hb⟩ | ⟨ha, hb⟩
  · rw [abs_of_nonneg ha, abs_of_nonneg hb]
  · rw [abs_of_nonpos ha, abs_of_nonpos hb, neg_mul_neg]

section
variable (ha : defs.Contains v.value left_range a) (hb : defs.Contains v.value right_range b)
include ha hb

lemma mul_spec : defs.Admits v.value (defs.mul left_range right_range) (Token.kMUL.exact a b) := by
  obtain ⟨low, high, left_min, left_max, -, hlo, hhi, hmin, hmax, hl⟩ := v.constant_abs_spec ha
  obtain ⟨low', high', right_min, right_max, -, hlo', hhi', hmin', hmax', hr⟩ := v.constant_abs_spec hb
  have hsmi := defs.kSmiMin_le
  have hmax0 : 0 ≤ left_max.toInt := hl.min_nonneg.trans hl.min_le_max
  have hmax0' : 0 ≤ right_max.toInt := hr.min_nonneg.trans hr.min_le_max
  rw [mul, hmax, ok_bind, hmax', ok_bind]
  split
  · rename_i hsmall
    obtain ⟨hleftSmall, hrightSmall, hdiv⟩ := hsmall
    have hle : |a| ≤ left_max.toInt := hl.le_max (.inl (by omega))
    have hle' : |b| ≤ right_max.toInt := hr.le_max (.inl (by omega))
    have hprod := mul_max_fits hmax0 hdiv
    have habs : |a| * |b| ≤ left_max.toInt * right_max.toInt := mul_le_mul hle hle' (abs_nonneg b) hmax0
    have hnn : 0 ≤ left_max.toInt * right_max.toInt := mul_nonneg hmax0 hmax0'
    have hmulFits : Fits (left_max.toInt * right_max.toInt) := ⟨by omega, by omega⟩
    have hsigned : |a * b| ≤ left_max.toInt * right_max.toInt := by rwa [abs_mul]
    obtain ⟨hbelow, habove⟩ := abs_le.mp hsigned
    rw [hmulFits.checked_eq, ok_bind]
    simp only [only_positive_or_zero, only_negative_or_zero, only_greater_than_or_equal_to, only_less_than_or_equal_to,
      hlo, hlo', hhi, hhi', ok_bind, pure_eq_ok]
    split
    · rename_i hsigns
      simp only [Bool.or_eq_true, Bool.and_eq_true, decide_eq_true_eq] at hsigns
      have hminle : left_min.toInt * right_min.toInt ≤ |a| * |b| := by
        refine mul_le_mul (hl.min_le (by omega)) (hr.min_le (by omega)) hr.min_nonneg (abs_nonneg a)
      have hminFits : Fits (left_min.toInt * right_min.toInt) := by
        have hmin0 := mul_nonneg hl.min_nonneg hr.min_nonneg
        exact ⟨by omega, by omega⟩
      refine admits_some (by rw [hmin, ok_bind, hmin', ok_bind, hminFits.checked_eq, ok_bind]) ?_
      have hab := mul_eq_abs_mul_abs (a := a) (b := b) (by
        have h1 := hl.low_le
        have h2 := hl.le_high
        have h3 := hr.low_le
        have h4 := hr.le_high
        omega)
      rw [contains_constants, hminFits.toInt_ofInt, hmulFits.toInt_ofInt, hab]
      exact ⟨hminle, habs⟩
    · have hnegFits : Fits (-(left_max.toInt * right_max.toInt)) := ⟨by omega, by omega⟩
      refine admits_some (by rw [hmulFits.toInt_ofInt, hnegFits.checked_eq, ok_bind]) ?_
      rw [contains_constants, hnegFits.toInt_ofInt, hmulFits.toInt_ofInt]
      exact ⟨hbelow, habove⟩
  · exact admits_full rfl

lemma trunc_div_spec : defs.Admits v.value (defs.trunc_div left_range right_range) (Token.kTRUNCDIV.exact a b) := by
  obtain ⟨low, high, left_min, left_max, -, hlo, hhi, hmin, hmax, hl⟩ := v.constant_abs_spec ha
  obtain ⟨low', high', right_min, right_max, -, hlo', hhi', hmin', hmax', hr⟩ := v.constant_abs_spec hb
  simp only [trunc_div, only_greater_than_or_equal_to, hlo, hlo', ok_bind, pure_eq_ok]
  split
  · rename_i hsigns
    simp only [Bool.and_eq_true, decide_eq_true_eq] at hsigns
    obtain ⟨hpos, hpos'⟩ := hsigns
    have hlm := hl.min_eq hpos
    have hlM := hl.max_eq hpos
    have hrm := hr.min_eq (by omega)
    have hrM := hr.max_eq (by omega)
    have h1 := hl.low_le
    have h2 := hl.le_high
    have h3 := hr.low_le
    have h4 := hr.le_high
    have hmaxq : left_max.toInt.tdiv right_min.toInt = high.toInt / low'.toInt := by
      rw [hlM, hrm, tdiv_eq_ediv_of_nonneg (by omega)]
    have hminq : left_min.toInt.tdiv right_max.toInt = low.toInt / high'.toInt := by
      rw [hlm, hrM, tdiv_eq_ediv_of_nonneg (by omega)]
    have hq : a.tdiv b = a / b := tdiv_eq_ediv_of_nonneg (by omega)
    have hupper : a / b ≤ high.toInt / low'.toInt := by
      calc a / b ≤ a / low'.toInt := ediv_le_ediv_left (by omega) (by omega) h3
        _ ≤ high.toInt / low'.toInt := Int.ediv_le_ediv (by omega) h2
    have hlower : low.toInt / high'.toInt ≤ a / b := by
      calc low.toInt / high'.toInt ≤ low.toInt / b := ediv_le_ediv_left (by omega) (by omega) h4
        _ ≤ a / b := Int.ediv_le_ediv (by omega) h1
    have hhighFits : Fits (high.toInt / low'.toInt) := by
      have hle := ediv_le_self low'.toInt (show 0 ≤ high.toInt by omega)
      have hge := ediv_nonneg (show 0 ≤ high.toInt by omega) (show 0 ≤ low'.toInt by omega)
      have hlt := (fits_toInt high).2
      exact ⟨by omega, by omega⟩
    have hlowFits : Fits (low.toInt / high'.toInt) := by
      have hge := ediv_nonneg (by omega) (show 0 ≤ high'.toInt by omega)
      have hlt := hhighFits.2
      exact ⟨by omega, by omega⟩
    have hex : Token.kTRUNCDIV.exact a b = some (a / b) := by
      rw [Token.exact, if_neg (by omega), hq]
    rw [hex]
    have hmaxOk : quotient left_max right_min = .ok (.ofInt (high.toInt / low'.toInt)) := by
      rw [quotient, if_neg (by omega), hmaxq, hhighFits.checked_eq]
    have hminOk : quotient left_min right_max = .ok (.ofInt (low.toInt / high'.toInt)) := by
      rw [quotient, if_neg (by omega), hminq, hlowFits.checked_eq]
    refine admits_some (by rw [hmax, ok_bind, hmin, ok_bind, hmax', ok_bind, hmin', ok_bind, hmaxOk, ok_bind,
      hminOk, ok_bind]) ?_
    rw [contains_constants, hlowFits.toInt_ofInt, hhighFits.toInt_ofInt]
    exact ⟨hlower, hupper⟩
  · exact admits_full rfl

end

variable (hb : defs.Contains v.value right_range b)
include hb

lemma mod_max_spec : ∃ max, defs.mod_max right_range = .ok max ∧ 0 ≤ max.toInt ∧ |b| - 1 ≤ max.toInt := by
  obtain ⟨low, high, right_min, right_max, hlo, -, -, -, hmax, hbounds⟩ := v.constant_abs_spec hb
  have hmax0 := hbounds.min_nonneg.trans hbounds.min_le_max
  have hfitsB := hb.fits
  rw [mod_max, hlo, ok_bind]
  split
  · rename_i hne
    have hle : |b| ≤ right_max.toInt := hbounds.le_max (.inr fun h => hne (toInt.inj (h.trans toInt_minValue.symm)))
    have hfits : Fits (right_max.toInt - 1) := by
      have hlt := (fits_toInt right_max).2
      exact ⟨by omega, by omega⟩
    refine ⟨_, by rw [hmax, ok_bind, hfits.checked_eq, ok_bind]; rfl, ?_⟩
    rw [hfits.toInt_ofInt]
    split
    · rw [hfits.toInt_ofInt]
      omega
    · rw [toInt_zero]
      omega
  · refine ⟨maxValue, rfl, ?_⟩
    have habs : |b| ≤ 2 ^ 63 := abs_le.mpr ⟨hfitsB.1, hfitsB.2.le⟩
    rw [toInt_maxValue]
    exact ⟨by norm_num, by omega⟩

lemma mod_spec : defs.Admits v.value (defs.mod right_range) (Token.kMOD.exact a b) := by
  obtain ⟨max, hmax, hmax0, hle⟩ := v.mod_max_spec hb
  refine ⟨⟨.constant 0, .constant max⟩, by rw [mod, hmax]; rfl, ⟨0, ?_⟩, fun r hr => ?_⟩
  · rw [contains_constants]
    exact ⟨le_refl _, hmax0⟩
  · rw [Token.exact] at hr
    split at hr
    · cases hr
    · rename_i hne
      cases hr
      left
      have hlt := emod_lt_abs a hne
      rw [contains_constants, toInt_zero]
      exact ⟨emod_nonneg a hne, by omega⟩

end Valuation
end dart.range_analysis
