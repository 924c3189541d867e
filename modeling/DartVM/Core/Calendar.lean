import DartVM.Core.DateTime

namespace dart.core
open int64 gregorian Duration Int

namespace DateTime
variable {a b : Int} {m : Nat}

lemma floored_division_eq (ha : Fits a) (hb : 0 < b) (h : Fits (a - (b - 1))) : floored_division a b = a / b := by
  unfold floored_division
  split_ifs with hneg
  · have hdecomp := emod_add_mul_ediv a b
    have hrem := emod_nonneg a hb.ne'
    have hlt := emod_lt_of_pos a hb
    have hsplit : -(a - (b - 1)) = (b - 1 - a % b) + b * -(a / b) := by linarith
    rw [h.wrap_eq, ← neg_neg (a - (b - 1)), Int.neg_tdiv, tdiv_eq_ediv_of_nonneg (by omega), hsplit,
      add_mul_ediv_left _ _ hb.ne', ediv_eq_zero_of_lt (by omega) (by omega)]
    omega
  · rw [sub_zero, ha.wrap_eq, tdiv_eq_ediv_of_nonneg (by omega)]

/-- Division of the number before a natural one. The number before zero is a remainder of its own. -/
lemma truncated_spec (ha : -1 ≤ a) (hb : 1 < b) :
    b * a.tdiv b + a.tmod b = a ∧ 0 ≤ a.tdiv b ∧ -1 ≤ a.tmod b ∧ a.tmod b < b ∧ (a.tmod b = -1 → a = -1) := by
  refine ⟨mul_tdiv_add_tmod a b, ?_⟩
  by_cases hneg : a = -1
  · have hquot : (1 : Int).tdiv b = 0 := tdiv_eq_zero_of_lt (by decide) hb
    have hrem : (1 : Int).tmod b = 1 := tmod_eq_of_lt (by decide) hb
    rw [hneg, Int.neg_tdiv, neg_tmod, hquot, hrem]
    omega
  have hrem := emod_nonneg a (show b ≠ 0 by omega)
  have hlt := emod_lt_of_pos a (show 0 < b by omega)
  rw [tdiv_eq_ediv_of_nonneg (by omega), tmod_eq_emod_of_nonneg (by omega)]
  exact ⟨ediv_nonneg (by omega) (by omega), by omega, hlt, by omega⟩

/-- The years are counted in cycles of 400, 100, 4 and one years, each with its leap day at
the beginning or the end. -/
lemma upper_year_spec (days : Int) (h : 0 ≤ days + days_offset) : ∃ year n, upper_year days =
    (year, decide (IsLeap year), n) ∧ 0 ≤ n ∧ n < yearLength year ∧ days = yearStart year + n := by
  have hoff : days_offset = 146816528 := by decide
  obtain ⟨h0, hq0, hr0, hlt0, hneg0⟩ := truncated_spec (b := 146097) (show -1 ≤ days + 146816528 by omega) (by decide)
  unfold upper_year
  rw [hoff, show days_in_400_years = 146097 by decide, show days_in_100_years = 36524 by decide,
    show days_in_4_years = 1461 by decide, years_offset]
  dsimp only
  generalize (days + 146816528).tdiv 146097 = q0 at *
  generalize (days + 146816528).tmod 146097 = r0 at *
  obtain ⟨h1, hq1, hr1, hlt1, hneg1⟩ := truncated_spec (b := 36524) (show -1 ≤ r0 - 1 by omega) (by decide)
  generalize (r0 - 1).tdiv 36524 = q1 at *
  generalize (r0 - 1).tmod 36524 = r1 at *
  obtain ⟨h2, hq2, hr2, hlt2, hneg2⟩ := truncated_spec (b := 1461) (show -1 ≤ r1 + 1 by omega) (by decide)
  generalize (r1 + 1).tdiv 1461 = q2 at *
  generalize (r1 + 1).tmod 1461 = r2 at *
  obtain ⟨h3, hq3, hr3, hlt3, hneg3⟩ := truncated_spec (b := 365) (show -1 ≤ r2 - 1 by omega) (by decide)
  generalize (r2 - 1).tdiv 365 = q3 at *
  generalize (r2 - 1).tmod 365 = r3 at *
  have hbounds : q1 ≤ 3 ∧ q2 ≤ 24 ∧ q3 ≤ 3 := by omega
  have hyear : 400 * q0 - 400000 + 100 * q1 + 4 * q2 + q3 = 400 * (q0 - 1000) + 100 * q1 + 4 * q2 + q3 := by ring
  have hleap := isLeap_iff_of_cycles hyear hq1 hq2 hq3 hbounds
  have hstart := yearStart_of_cycles hyear hq1 hq2 hq3 hbounds
  generalize 400 * q0 - 400000 + 100 * q1 + 4 * q2 + q3 = year at *
  have hdecide : ((q1 == 0 || q2 != 0) && q3 == 0) = decide (IsLeap year) := by
    rw [Bool.eq_iff_iff, decide_eq_true_iff, hleap]
    simp
  rw [hdecide]
  refine ⟨_, _, rfl, ?_⟩
  rw [hstart, yearLength]
  simp only [decide_eq_true_iff, hleap]
  rcases eq_or_ne q3 0 with rfl | hyear3
  · rcases eq_or_ne q2 0 with rfl | hyear2
    · rcases eq_or_ne q1 0 with rfl | hyear1
      · simp only [ne_eq, true_or, and_true, mul_zero, add_zero, if_true]
        omega
      · simp only [hyear1, ne_eq, not_true, or_self, false_and, mul_zero, add_zero, if_true, if_false]
        omega
    · have hcent : 4 * q2 + 0 ≠ 0 ∧ 100 * q1 + 4 * q2 + 0 ≠ 0 := by omega
      simp only [hyear2, hcent.1, hcent.2, ne_eq, not_false_eq_true, or_true, and_true, if_true, if_false]
      omega
  · have hcent : 4 * q2 + q3 ≠ 0 ∧ 100 * q1 + 4 * q2 + q3 ≠ 0 := by omega
    simp only [hyear3, hcent.1, hcent.2, and_false, if_false]
    omega

lemma days_until_month_eq (year : Int) (hm : m < 12) :
    (days_until_month (decide (IsLeap year))).getD m 0 = monthStart year m := by
  unfold monthStart monthLengths
  by_cases hleap : IsLeap year
  · rw [decide_eq_true hleap, if_pos hleap]
    interval_cases m <;> rfl
  · rw [decide_eq_false hleap, if_neg hleap]
    interval_cases m <;> rfl

lemma find_month_spec {table : List Int} {days : Int} (h : table.getD 0 0 ≤ days) (hm : 0 < m) :
    ∃ k, find_month table days m = some (k + 1) ∧ k < m ∧ table.getD k 0 ≤ days ∧
      (k + 1 < m → days < table.getD (k + 1) 0) := by
  induction m with
  | zero => exact absurd hm (lt_irrefl 0)
  | succ m ih =>
    unfold find_month
    split_ifs with hbegun
    · obtain ⟨k, hk, hlt, hle, hnext⟩ := ih (Nat.pos_of_ne_zero fun h0 => by rw [h0] at hbegun; omega)
      refine ⟨k, hk, by omega, hle, fun hkm => ?_⟩
      by_cases hlast : k + 1 = m
      · rwa [hlast]
      · exact hnext (by omega)
    · exact ⟨m, rfl, by omega, by omega, fun hlt => absurd hlt (lt_irrefl _)⟩

end DateTime

/-- The day of a date, without under- and overflow. -/
structure BrokenDownDate.Valid (date : BrokenDownDate) : Prop where
  month_pos : 1 ≤ date.month
  is_date : IsDate date.year (date.month - 1).toNat date.day
  hour : 0 ≤ date.hour ∧ date.hour < 24
  minute : 0 ≤ date.minute ∧ date.minute < 60
  second : 0 ≤ date.second ∧ date.second < 60
  millisecond : 0 ≤ date.millisecond ∧ date.millisecond < 1000
  microsecond : 0 ≤ date.microsecond ∧ date.microsecond < 1000

/-- The microseconds of the time of the day. -/
def BrokenDownDate.time (date : BrokenDownDate) : Int :=
  date.hour * microseconds_per_hour + date.minute * microseconds_per_minute +
    date.second * microseconds_per_second + date.millisecond * microseconds_per_millisecond +
    date.microsecond

/-- The exact number of microseconds since 1970, with the months carried into the years. -/
def BrokenDownDate.instant (date : BrokenDownDate) : Int :=
  dayNumber (date.year + (date.month - 1) / 12) ((date.month - 1) % 12).toNat date.day *
    microseconds_per_day + date.time

variable {date : BrokenDownDate}

lemma BrokenDownDate.Valid.instant_eq (h : date.Valid) :
    date.instant = dayNumber date.year (date.month - 1).toNat date.day * microseconds_per_day + date.time := by
  have hpos := h.month_pos
  have hlt := h.is_date.month_lt
  rw [instant, ediv_eq_zero_of_lt (by omega) (by omega), emod_eq_of_lt (by omega) (by omega), add_zero]

namespace DateTime

lemma compute_upper_part_spec (hlo : -2 ^ 63 + microseconds_per_day ≤ v) (hhi : v < 2 ^ 63) :
    ∃ p, compute_upper_part v = some p ∧ p.Valid ∧ p.instant = v ∧ p.microsecond = v % microseconds_per_millisecond ∧
      p.weekday = isoWeekday (dayNumber p.year (p.month - 1).toNat p.day) := by
  unfold microseconds_per_day at hlo
  have hdiv {b : Int} (hpos : 0 < b) (hle : b ≤ 86400000000) : floored_division v b = v / b :=
    floored_division_eq ⟨by omega, hhi⟩ hpos ⟨by omega, by omega⟩
  obtain ⟨year, n, hupper, hn, hlt, hdays⟩ := upper_year_spec (v / 86400000000)
    (by rw [show days_offset = 146816528 by decide]; omega)
  have h0 : (days_until_month (decide (IsLeap year))).getD 0 0 ≤ n := by
    rw [days_until_month_eq year (by decide)]
    exact hn
  obtain ⟨k, hfind, hk, hbegun, hnext⟩ := find_month_spec h0 (show 0 < 12 by decide)
  rw [days_until_month_eq year hk] at hbegun
  have hmonth : n < monthStart year k + monthLength year k := by
    rw [← monthStart_succ]
    by_cases hlast : k + 1 < 12
    · rw [← days_until_month_eq year hlast]
      exact hnext hlast
    · rw [show k + 1 = 12 by omega, monthStart_twelve]
      exact hlt
  have hnum : dayNumber year k (n - monthStart year k + 1) = v / 86400000000 := by
    rw [dayNumber, hdays]
    ring
  have hidx : (((k + 1 : Nat) : Int) - 1).toNat = k := by omega
  let date : BrokenDownDate := ⟨year, (k + 1 : Nat), n - monthStart year k + 1, v / microseconds_per_hour % 24,
    v / microseconds_per_minute % 60, v / microseconds_per_second % 60, v / microseconds_per_millisecond % 1000,
    v % microseconds_per_millisecond⟩
  have hok : date.Valid := by
    have hrng (x : Int) {b : Int} (hb : 0 < b) : 0 ≤ x % b ∧ x % b < b := ⟨emod_nonneg x hb.ne', emod_lt_of_pos x hb⟩
    refine ⟨by simp [date], ?_, hrng _ (by decide), hrng _ (by decide), hrng _ (by decide), hrng _ (by decide),
      hrng _ (by decide)⟩
    simp only [date, hidx]
    exact ⟨hk, by omega, by omega⟩
  refine ⟨⟨date, (v / 86400000000 + 4 - 1) % 7 + 1⟩, ?_, hok, ?_, rfl, ?_⟩
  · rw [compute_upper_part, hdiv (by decide) (by decide), hdiv (by decide) (by decide), hdiv (by decide) (by decide),
      hdiv (by decide) (by decide), hdiv (by decide) (by decide)]
    unfold microseconds_per_day
    simp only [hupper, hfind, Option.bind_eq_bind, Option.bind_some, Nat.add_sub_cancel, days_until_month_eq year hk]
    rfl
  · rw [hok.instant_eq]
    simp only [date, hidx, hnum, BrokenDownDate.time, microseconds_per_day, microseconds_per_hour,
      microseconds_per_minute, microseconds_per_second, microseconds_per_millisecond]
    omega
  · simp only [date, hidx, hnum, isoWeekday]
    omega

end DateTime
end dart.core
