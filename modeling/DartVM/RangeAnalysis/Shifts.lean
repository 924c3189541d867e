import DartVM.RangeAnalysis.Semantics

namespace dart.range_analysis
open int64 utils Definitions Int64 Int
variable {δ : Type} {defs : Definitions δ} {count : Int64} {x : Int}

lemma is_int_eq {n : Nat} (hn : 1 ≤ n) (hn' : n ≤ 64) (value : Int64) :
    is_int n value = .ok (decide (-2 ^ (n - 1) ≤ value.toInt ∧ value.toInt < 2 ^ (n - 1))) := by
  rw [is_int, check_bind hn]
  split
  · rename_i hbig
    obtain rfl : n = 64 := by omega
    obtain ⟨hlo, hhi⟩ := fits_toInt value
    rw [decide_eq_true ⟨hlo, hhi⟩, pure_eq_ok]
  · rw [pure_eq_ok, Bool.decide_and]

/-- A value stays in range when it is shifted iff its product with the power of two fits. -/
lemma fits_mul_two_pow_iff {s : Nat} (hs : s ≤ 63) : Fits (x * 2 ^ s) ↔ -2 ^ (63 - s) ≤ x ∧ x < 2 ^ (63 - s) := by
  have hsplit : (2 : Int) ^ 63 = 2 ^ (63 - s) * 2 ^ s := by rw [← pow_add, Nat.sub_add_cancel hs]
  have hpos : (0 : Int) < 2 ^ s := by positivity
  rw [Fits, hsplit, ← neg_mul]
  exact and_congr (mul_le_mul_iff_of_pos_right hpos) (mul_lt_mul_iff_of_pos_right hpos)

lemma will_shl_overflow_eq {value count : Int64} (hcnt : 0 ≤ count.toInt) : will_shl_overflow value count =
      .ok (!decide (value = 0 ∨ count.toInt < 64 ∧ Fits (value.toInt * 2 ^ count.toInt.toNat))) := by
  rw [will_shl_overflow, check_bind hcnt]
  split
  · rename_i h0
    simp [h0]
  · rename_i h0
    split
    · rename_i hbig
      rw [decide_eq_false (by rintro (h | ⟨h, -⟩); exacts [h0 h, by omega])]
      rfl
    · rename_i hsmall
      have hexp : (64 - count.toInt).toNat - 1 = 63 - count.toInt.toNat := by omega
      rw [is_int_eq (by omega) (by omega), ok_bind, pure_eq_ok, hexp]
      congr 2
      rw [decide_eq_decide, ← fits_mul_two_pow_iff (by omega)]
      constructor
      · exact fun h => .inr ⟨by omega, h⟩
      · rintro (h | ⟨-, h⟩)
        · exact absurd h h0
        · exact h

/-- The end of a shifted range, if it is not lost: the exact product, where zero may be
shifted by any number of bits. -/
lemma shl_boundary_spec (value : Int64) (hcnt : 0 ≤ count.toInt) : ∃ result, shl_boundary value count = .ok result ∧
      ∀ r, result = some r → r.toInt = value.toInt * 2 ^ count.toInt.toNat ∧ (value.toInt = 0 ∨ count.toInt < 64) := by
  have hovf : will_shl_overflow value count = _ := will_shl_overflow_eq hcnt
  rw [shl_boundary, hovf, ok_bind]
  by_cases hok : value = 0 ∨ count.toInt < 64 ∧ Fits (value.toInt * 2 ^ count.toInt.toNat)
  · rw [decide_eq_true hok, Bool.not_true] at hovf ⊢
    rw [if_neg Bool.false_ne_true, shl_constant, hovf, ok_bind, Bool.not_false, check_true, ok_bind, check_bind hcnt]
    split
    · rename_i h0
      refine ⟨some 0, rfl, ?_⟩
      rintro _ ⟨⟩
      simp [h0]
    · rename_i h0
      obtain ⟨hlt, hfits⟩ := hok.resolve_left h0
      refine ⟨some (.ofInt (value.toInt * 2 ^ count.toInt.toNat)), rfl, ?_⟩
      rintro _ ⟨⟩
      exact ⟨hfits.toInt_ofInt, .inr hlt⟩
  · rw [decide_eq_false hok, Bool.not_false, if_pos rfl]
    exact ⟨none, rfl, by rintro _ ⟨⟩⟩

lemma shr_constant_spec (value : Int64) (hcnt : 0 ≤ count.toInt) :
    ∃ r, shr_constant value count = .ok r ∧ r.toInt = value.toInt / 2 ^ count.toInt.toNat := by
  obtain ⟨hlo, hhi⟩ := fits_toInt value
  have hpos : (0 : Int) < 2 ^ count.toInt.toNat := by positivity
  rw [shr_constant, check_bind hcnt]
  split
  · have hfits : Fits (value.toInt / 2 ^ count.toInt.toNat) := by
      constructor
      · rw [Int.le_ediv_iff_mul_le hpos]
        nlinarith
      · rw [Int.ediv_lt_iff_lt_mul hpos]
        nlinarith
    exact ⟨_, rfl, hfits.toInt_ofInt⟩
  · rename_i hbig
    have hpow : (2 : Int) ^ 63 ≤ 2 ^ count.toInt.toNat := two_pow_mono (by omega)
    refine ⟨_, rfl, ?_⟩
    split
    · rename_i hval
      rw [toInt_zero, ediv_eq_zero_of_lt hval (by omega)]
    · rename_i hval
      rw [ediv_eq_neg_one_of_neg_of_le (by omega) (by omega)]
      rfl

/-- The counts of a shift by `s` bits, between the smallest and the largest one. -/
structure Counts (min max : Int64) (s : Nat) : Prop where
  min_nonneg : 0 ≤ min.toInt
  max_nonneg : 0 ≤ max.toInt
  min_le : min.toInt.toNat ≤ s
  le_max : s ≤ max.toInt.toNat

section
variable {low high a : Int} {s t u : Nat}

lemma mul_two_pow_ge (hla : low ≤ a) (hts : t ≤ s) (hsu : s ≤ u) :
    low * 2 ^ (if low > 0 then t else u) ≤ a * 2 ^ s := by
  have hmono : low * 2 ^ s ≤ a * 2 ^ s := mul_le_mul_of_nonneg_right hla (by positivity)
  refine le_trans ?_ hmono
  split
  · exact mul_le_mul_of_nonneg_left (two_pow_mono hts) (by omega)
  · exact mul_le_mul_of_nonpos_left (two_pow_mono hsu) (by omega)

lemma mul_two_pow_le (hah : a ≤ high) (hts : t ≤ s) (hsu : s ≤ u) :
    a * 2 ^ s ≤ high * 2 ^ (if high > 0 then u else t) := by
  have hmono : a * 2 ^ s ≤ high * 2 ^ s := mul_le_mul_of_nonneg_right hah (by positivity)
  refine le_trans hmono ?_
  split
  · exact mul_le_mul_of_nonneg_left (two_pow_mono hsu) (by omega)
  · exact mul_le_mul_of_nonpos_left (two_pow_mono hts) (by omega)

lemma ediv_two_pow_ge (hla : low ≤ a) (hts : t ≤ s) (hsu : s ≤ u) :
    low / 2 ^ (if low > 0 then u else t) ≤ a / 2 ^ s := by
  have hmono : low / 2 ^ s ≤ a / 2 ^ s := Int.ediv_le_ediv (by positivity) hla
  refine le_trans ?_ hmono
  split
  · exact ediv_le_ediv_left (by omega) (by positivity) (two_pow_mono hsu)
  · exact ediv_le_ediv_left_of_nonpos (by omega) (by positivity) (two_pow_mono hts)

lemma ediv_two_pow_le (hah : a ≤ high) (hts : t ≤ s) (hsu : s ≤ u) :
    a / 2 ^ s ≤ high / 2 ^ (if high > 0 then t else u) := by
  have hmono : a / 2 ^ s ≤ high / 2 ^ s := Int.ediv_le_ediv (by positivity) hah
  refine le_trans hmono ?_
  split
  · exact ediv_le_ediv_left (by omega) (by positivity) (two_pow_mono hts)
  · exact ediv_le_ediv_left_of_nonpos (by omega) (by positivity) (two_pow_mono hsu)

end

namespace Valuation
variable (v : Valuation defs) {left right : Range δ} {a b : Int}

/-- A negative shift count is treated like zero. -/
lemma shift_counts_spec (hb : defs.Contains v.value right b) :
    ∃ min max, defs.shift_counts right = .ok (min, max) ∧ Counts min max b.toNat := by
  obtain ⟨low, high, hlo, hhi, -, -, hle, hge⟩ := v.constant_bounds_spec hb
  refine ⟨_, _, by rw [shift_counts, hhi, ok_bind, hlo, ok_bind]; rfl, ?_⟩
  have h0 := toInt_zero
  constructor
  · split <;> omega
  · split <;> omega
  · split <;> omega
  · split <;> omega

/-- A shift is undefined for negative counts; it is enough to look at the others. -/
lemma admits_shift {computed : Checked (Range δ)} {result : Int} (h : defs.Admits v.value computed (some result))
    : defs.Admits v.value computed (if b < 0 then none else some result) := by
  split
  · exact h.of_some
  · exact h

section
variable (ha : defs.Contains v.value left a) (hb : defs.Contains v.value right b)
include ha hb

lemma shl_spec : defs.Admits v.value (defs.shl left right) (Token.kSHL.exact a b) := by
  obtain ⟨low, high, hlo, hhi, -, -, hle, hge⟩ := v.constant_bounds_spec ha
  obtain ⟨min, max, hcnts, hmin0, hmax0, hmin, hmax⟩ := v.shift_counts_spec hb
  have hlowCount : 0 ≤ (if low.toInt > 0 then min else max).toInt := by split <;> assumption
  have hhighCount : 0 ≤ (if high.toInt > 0 then max else min).toInt := by split <;> assumption
  obtain ⟨first, hfst, hfirstEq⟩ := shl_boundary_spec low hlowCount
  obtain ⟨last, hlast, hlastEq⟩ := shl_boundary_spec high hhighCount
  refine v.admits_shift (@admits_ends _ _ _ _ _ (first.map .constant) (last.map .constant) ?_ ?_ ?_)
  · rw [shl, hhi, ok_bind, hlo, ok_bind, hcnts, ok_bind]
    dsimp only
    rw [hfst, ok_bind, hlast, ok_bind]
    cases first <;> cases last <;> rfl
  · intro boundary hbnd
    obtain ⟨c, rfl, rfl⟩ := Option.map_eq_some_iff.mp hbnd
    refine ⟨c.toInt, rfl, ?_⟩
    rw [(hfirstEq c rfl).1, apply_ite toInt, apply_ite toNat]
    exact mul_two_pow_ge hle hmin hmax
  · intro boundary hbnd
    obtain ⟨c, rfl, rfl⟩ := Option.map_eq_some_iff.mp hbnd
    refine ⟨c.toInt, rfl, ?_⟩
    rw [(hlastEq c rfl).1, apply_ite toInt, apply_ite toNat]
    exact mul_two_pow_le hge hmin hmax

lemma shr_spec : defs.Admits v.value (defs.shr left right) (Token.kSHR.exact a b) := by
  obtain ⟨low, high, hlo, hhi, -, -, hle, hge⟩ := v.constant_bounds_spec ha
  obtain ⟨min, max, hcnts, hmin0, hmax0, hmin, hmax⟩ := v.shift_counts_spec hb
  have hlowCount : 0 ≤ (if low.toInt > 0 then max else min).toInt := by split <;> assumption
  have hhighCount : 0 ≤ (if high.toInt > 0 then min else max).toInt := by split <;> assumption
  obtain ⟨first, hfst, hfirstEq⟩ := shr_constant_spec low hlowCount
  obtain ⟨last, hlast, hlastEq⟩ := shr_constant_spec high hhighCount
  have hok : defs.shr left right = .ok ⟨.constant first, .constant last⟩ := by
    rw [shr, hhi, ok_bind, hlo, ok_bind, hcnts, ok_bind]
    dsimp only
    rw [hfst, ok_bind, hlast, ok_bind, pure_eq_ok]
  refine v.admits_shift (admits_some hok ?_)
  rw [contains_constants, hfirstEq, hlastEq]
  simp only [apply_ite toInt, apply_ite toNat]
  exact ⟨ediv_two_pow_ge hle hmin hmax, ediv_two_pow_le hge hmin hmax⟩

end

/-- The unsigned words of a range of signed ones. -/
lemma convert_range_to_unsigned_spec {low high : Int64} (hle : low.toInt ≤ a) (hge : a ≤ high.toInt) :
    ∃ range, convert_range_to_unsigned low high = .ok range ∧ (range.min : Int) ≤ a % 2 ^ 64 ∧
      a % 2 ^ 64 ≤ range.max ∧ range.max < 2 ^ 64 := by
  obtain ⟨hlo, -⟩ := fits_toInt low
  obtain ⟨-, hhi⟩ := fits_toInt high
  rw [convert_range_to_unsigned, check_bind (hle.trans hge)]
  split
  · exact ⟨_, rfl, by dsimp only; omega, by dsimp only; omega, by norm_num⟩
  · exact ⟨_, rfl, by dsimp only; omega, by dsimp only; omega, by dsimp only; omega⟩

/-- The signed words of a range of unsigned ones. -/
lemma convert_range_to_signed_spec {min max : Nat} (hle : (min : Int) ≤ x) (hge : x ≤ max) (hmax : max < 2 ^ 64) :
    ∃ low high, convert_range_to_signed ⟨min, max⟩ = .ok (low, high) ∧ low.toInt ≤ wrap x ∧ wrap x ≤ high.toInt := by
  obtain ⟨hlo, hhi⟩ := fits_wrap x
  rw [convert_range_to_signed, check_bind (show min ≤ max by omega)]
  split
  · refine ⟨_, _, rfl, ?_⟩
    rw [toInt_minValue, toInt_maxValue]
    exact ⟨hlo, by omega⟩
  · rename_i hhalf
    dsimp only at hhalf
    refine ⟨_, _, rfl, ?_⟩
    rw [toInt_ofInt_eq_wrap, toInt_ofInt_eq_wrap]
    by_cases hupper : (2 : Int) ^ 63 ≤ min
    · rw [wrap_of_upper_half hupper (by omega), wrap_of_upper_half (by omega) (by omega),
        wrap_of_upper_half (x := max) (by omega) (by omega)]
      omega
    have hfits (y : Int) (hy : 0 ≤ y) (hy' : y ≤ max) : wrap y = y := Fits.wrap_eq ⟨by omega, by omega⟩
    rw [hfits x (by omega) hge, hfits min (by omega) (by omega), hfits max (by omega) (le_refl _)]
    exact ⟨hle, hge⟩

/-- Words are shifted out completely from 64 bits on. -/
lemma shiftRight_eq_ediv {word : Nat} (hword : word < 2 ^ 64) :
    ((if count.toInt ≥ 64 then 0 else word >>> count.toInt.toNat : Nat) : Int) = word / 2 ^ count.toInt.toNat := by
  split
  · rename_i hbig
    have hpow : (2 : Int) ^ 64 ≤ 2 ^ count.toInt.toNat := two_pow_mono (by omega)
    rw [ediv_eq_zero_of_lt (by omega) (by omega)]
    rfl
  · rw [Nat.shiftRight_eq_div_pow]
    rfl

lemma ushr_spec (ha : defs.Contains v.value left a) (hb : defs.Contains v.value right b) :
    defs.Admits v.value (defs.ushr left right) (Token.kUSHR.exact a b) := by
  obtain ⟨low, high, hlo, hhi, -, -, hle, hge⟩ := v.constant_bounds_spec ha
  obtain ⟨min, max, hcnts, hmin0, hmax0, hmin, hmax⟩ := v.shift_counts_spec hb
  obtain ⟨range, hrng, hrmin, hrmax, hword⟩ := convert_range_to_unsigned_spec hle hge
  have hwordMin : range.min < 2 ^ 64 := by omega
  have hfst : ((if max.toInt ≥ 64 then 0 else range.min >>> max.toInt.toNat : Nat) : Int) ≤
      a % 2 ^ 64 / 2 ^ b.toNat := by
    rw [shiftRight_eq_ediv hwordMin]
    calc (range.min : Int) / 2 ^ max.toInt.toNat ≤ range.min / 2 ^ b.toNat :=
          ediv_le_ediv_left (by omega) (by positivity) (two_pow_mono hmax)
      _ ≤ a % 2 ^ 64 / 2 ^ b.toNat := Int.ediv_le_ediv (by positivity) hrmin
  have hlast : a % 2 ^ 64 / 2 ^ b.toNat ≤
      ((if min.toInt ≥ 64 then 0 else range.max >>> min.toInt.toNat : Nat) : Int) := by
    rw [shiftRight_eq_ediv hword]
    calc a % 2 ^ 64 / 2 ^ b.toNat ≤ range.max / 2 ^ b.toNat := Int.ediv_le_ediv (by positivity) hrmax
      _ ≤ range.max / 2 ^ min.toInt.toNat := ediv_le_ediv_left (by omega) (by positivity) (two_pow_mono hmin)
  have hlastWord : (if min.toInt ≥ 64 then 0 else range.max >>> min.toInt.toNat) < 2 ^ 64 := by
    split
    · norm_num
    · exact (Nat.shiftRight_le _ _).trans_lt hword
  obtain ⟨first, last, hok, hfst', hlast'⟩ := convert_range_to_signed_spec hfst hlast hlastWord
  refine v.admits_shift (admits_some ?_ (contains_constants.mpr ⟨hfst', hlast'⟩))
  rw [ushr, hhi, ok_bind, hlo, ok_bind, hcnts, ok_bind]
  dsimp only
  rw [hrng, ok_bind, hok, ok_bind, pure_eq_ok]

end Valuation
end dart.range_analysis
