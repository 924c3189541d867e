import DartVM.Core.Calendar

namespace dart.core
open int64 gregorian Duration Int BrokenDownDate

/-- The carried year is far enough from the limits of 64 bits to compute its first day. -/
structure BrokenDownDate.YearFits (date : BrokenDownDate) : Prop where
  month : Fits date.month
  low_month : Fits (date.month - 12)
  year : Fits (date.year + (date.month - 1) / 12)
  low_year : Fits (date.year + (date.month - 1) / 12 - 2000)

/-- The fields in the order of their significance. -/
def BrokenDownDate.fields (date : BrokenDownDate) : List Int :=
  [date.year, date.month, date.day, date.hour, date.minute, date.second, date.millisecond, date.microsecond]

lemma BrokenDownDate.Valid.time_mem {date : BrokenDownDate} (h : date.Valid) :
    0 ≤ date.time ∧ date.time < microseconds_per_day := by
  obtain ⟨-, -, hhour, hminute, hsnd, hmillis, hmicros⟩ := h
  simp only [time, microseconds_per_day, microseconds_per_hour, microseconds_per_minute, microseconds_per_second,
    microseconds_per_millisecond]
  omega

/-- Later dates and times are later instants. -/
lemma BrokenDownDate.Valid.instant_lt {date date' : BrokenDownDate} (h : date.Valid) (h' : date'.Valid)
    (hlt : date.fields < date'.fields) : date.instant < date'.instant := by
  have htime := h.time_mem
  have htime' := h'.time_mem
  have hpos := h.month_pos
  rw [h.instant_eq, h'.instant_eq]
  simp only [fields, List.cons_lt_cons_iff, List.not_lt_nil, and_false, or_false] at hlt
  by_cases hdate : date.year = date'.year ∧ date.month = date'.month ∧ date.day = date'.day
  · obtain ⟨-, -, hhour, hminute, hsnd, hmillis, hmicros⟩ := h
    obtain ⟨-, -, hhour', hminute', hsnd', hmillis', hmicros'⟩ := h'
    rw [hdate.1, hdate.2.1, hdate.2.2]
    simp only [time, microseconds_per_hour, microseconds_per_minute, microseconds_per_second,
      microseconds_per_millisecond]
    omega
  · have hday := dayNumber_lt h.is_date h'.is_date (by omega)
    unfold microseconds_per_day at *
    omega

namespace DateTime

def InRange (x : Int) : Prop := -max_microseconds_since_epoch ≤ x ∧ x ≤ max_microseconds_since_epoch

instance (x : Int) : Decidable (InRange x) := inferInstanceAs (Decidable (_ ∧ _))

lemma inRange_iff {x : Int} : InRange x ↔ -8640000000000000000 ≤ x ∧ x ≤ 8640000000000000000 := Iff.rfl

variable {date : BrokenDownDate} {v : Int} {zone : Int → Int}

lemma is_leap_year_eq (y : Int) : is_leap_year y = decide (IsLeap y) := by
  rw [is_leap_year, Bool.eq_iff_iff, decide_eq_true_iff]
  simp only [Bool.and_eq_true, Bool.or_eq_true, beq_iff_eq, bne_iff_ne, IsLeap]
  omega

lemma day_from_year_eq {year : Int} (h : Fits year) (hlo : Fits (year - 2000)) :
    day_from_year year = wrap (yearStart year) := by
  obtain ⟨hlo, -⟩ := hlo
  obtain ⟨-, hhi⟩ := h
  have hdiv {c b : Int} (hb : 0 < b) (hpos : 0 ≤ c) (hle : c + b ≤ 2001) :
      floored_division (wrap (year - c)) b = (year - c) / b := by
    have hfits : Fits (year - c) := ⟨by omega, by omega⟩
    rw [hfits.wrap_eq, floored_division_eq hfits hb ⟨by omega, by omega⟩]
  rw [day_from_year, hdiv (by decide) (by decide) (by decide), hdiv (by decide) (by decide) (by decide),
    hdiv (by decide) (by decide) (by decide), yearStart_eq]
  simp [wrap]

lemma carry_months_eq (h : date.YearFits) :
    carry_months date.year date.month = (date.year + (date.month - 1) / 12, (date.month - 1) % 12) := by
  obtain ⟨⟨-, hhi⟩, ⟨hlo, -⟩, hyear, -⟩ := h
  have hmonth : Fits (date.month - 1) := ⟨by omega, by omega⟩
  unfold carry_months
  dsimp only
  rw [hmonth.wrap_eq]
  split_ifs with hover hunder
  · rw [tdiv_eq_ediv_of_nonneg (by omega), hyear.wrap_eq]
  · have hreal : Fits (date.month - 1 - (date.month - 1) % 12) := ⟨by omega, by omega⟩
    rw [hreal.wrap_eq, tdiv_eq_ediv_of_dvd (by omega),
      show (date.month - 1 - (date.month - 1) % 12) / 12 = (date.month - 1) / 12 by omega, hyear.wrap_eq]
  · rw [ediv_eq_zero_of_lt (by omega) (by omega), emod_eq_of_lt (by omega) (by omega), add_zero]

/-- All other operations are exact modulo `2 ^ 64`. -/
lemma broken_down_date_to_value_eq (h : date.YearFits) (offset : Int → Int) (is_utc : Bool) :
    broken_down_date_to_value offset date is_utc = (if is_utc then some (wrap date.instant)
      else if abs (wrap date.instant) > max_microseconds_since_epoch + microseconds_per_day then none
      else some (wrap (wrap date.instant - offset (wrap date.instant)))).bind
        fun value => if abs value > max_microseconds_since_epoch then none else some value := by
  have hmonth : ((date.month - 1) % 12).toNat < 12 := by omega
  have hsum : wrap date.instant = wrap ((date.day - 1 + monthStart (date.year + (date.month - 1) / 12) ((date.month - 1)
      % 12).toNat + yearStart (date.year + (date.month - 1) / 12)) * microseconds_per_day + date.hour *
      microseconds_per_hour + date.minute * microseconds_per_minute + date.second * microseconds_per_second +
      date.millisecond * microseconds_per_millisecond + date.microsecond) := by
    rw [instant, time, dayNumber]
    congr 1
    ring
  generalize wrap date.instant = value at hsum ⊢
  unfold broken_down_date_to_value
  rw [carry_months_eq h]
  dsimp only
  rw [is_leap_year_eq, days_until_month_eq _ hmonth, day_from_year_eq h.year h.low_year]
  simp only [wrap, bmod_add_bmod, add_bmod_bmod, bmod_mul_bmod] at hsum ⊢
  rw [← hsum]
  cases is_utc with
  | true => rfl
  | false => split_ifs <;> rfl

lemma utc_eq (h : date.YearFits) : utc date = if abs (wrap date.instant) > max_microseconds_since_epoch then none
      else some ⟨wrap date.instant, true⟩ := by
  unfold utc of_date
  rw [broken_down_date_to_value_eq h, if_pos rfl, Option.bind_some]
  split_ifs with hbig
  · rfl
  · have hval : wrap date.instant ≠ sentinel := fun heq => hbig (by rw [heq]; decide)
    exact if_neg hval

lemma yearFits_of_instant_mem (h : date.Valid) (hinst : Fits date.instant) : date.YearFits := by
  have htime := h.time_mem
  have hnum := h.is_date.dayNumber_mem
  have hpos := h.month_pos
  have hmonth := h.is_date.month_lt
  have hdays : dayNumber date.year (date.month - 1).toNat date.day = (date.instant - date.time) / 86400000000 := by
    rw [h.instant_eq, add_sub_cancel_right]
    exact (mul_ediv_cancel _ (by decide)).symm
  obtain ⟨hlo, hhi⟩ := hinst
  rw [hdays, yearStart_eq, yearStart_eq] at hnum
  unfold microseconds_per_day at htime
  exact ⟨⟨by omega, by omega⟩, ⟨by omega, by omega⟩, ⟨by omega, by omega⟩, ⟨by omega, by omega⟩⟩

lemma abs_le {v m : Int} (hlo : -m ≤ v) (hhi : v ≤ m) (hm : m < 2 ^ 63) : abs v ≤ m := by
  have hneg : Fits (-v) := ⟨by omega, by omega⟩
  rw [abs, hneg.wrap_eq]
  split_ifs <;> omega

/-- The parts of a valid time are a date of the calendar with a time of the day, they are in
the order of the times, and the time is built from them again. -/
theorem compute_upper_part_correct (h : InRange v) : ∃ p, compute_upper_part v = some p ∧ p.Valid ∧
      p.weekday = isoWeekday (dayNumber p.year (p.month - 1).toNat p.day) ∧ utc p.toBrokenDownDate = some ⟨v, true⟩ ∧
      ∀ w q, v < w → InRange w → compute_upper_part w = some q → p.fields < q.fields := by
  obtain ⟨hlo, hhi⟩ := inRange_iff.mp h
  have hroom : -2 ^ 63 + microseconds_per_day ≤ -8640000000000000000 := by decide
  obtain ⟨p, hp, hok, hinst, -, hweekday⟩ := compute_upper_part_spec (hroom.trans hlo) (by omega)
  have hfits : Fits p.instant := by rw [hinst]; exact ⟨by omega, by omega⟩
  refine ⟨p, hp, hok, hweekday, ?_, fun w q hvw hw hq => ?_⟩
  · have habs := abs_le h.1 h.2 (by decide)
    rw [utc_eq (yearFits_of_instant_mem hok hfits), hfits.wrap_eq, hinst, if_neg habs.not_gt]
  · rw [inRange_iff] at hw
    obtain ⟨p', hp', hok', hinst', -, -⟩ := compute_upper_part_spec (v := w) (hroom.trans (by omega)) (by omega)
    obtain rfl : p' = q := Option.some.inj (hp'.symm.trans hq)
    rcases lt_trichotomy p.fields p'.fields with hlt | heq | hgt
    · exact hlt
    · simp only [fields, List.cons.injEq] at heq
      obtain ⟨hyear, hmonth, hday, hhour, hminute, hsnd, hmillis, hmicros, -⟩ := heq
      rw [← hinst, ← hinst', instant, instant, time,
        time, hyear, hmonth, hday, hhour, hminute, hsnd, hmillis, hmicros] at hvw
      exact absurd hvw (lt_irrefl _)
    · have hinstants := hok'.instant_lt hok hgt
      omega

theorem compute_upper_part_correct_leap_day :
    ∃ p, compute_upper_part 951782400000000 = some p ∧ utc p.toBrokenDownDate = some ⟨951782400000000, true⟩ := by
  obtain ⟨p, hp, -, -, hutc, -⟩ := compute_upper_part_correct (v := 951782400000000) (by decide)
  exact ⟨p, hp, hutc⟩

lemma validate_iff {milliseconds microsecond : Int} : validate milliseconds microsecond = true ↔
    (0 ≤ microsecond ∧ microsecond ≤ 999) ∧ (-8640000000000000 ≤ milliseconds ∧ milliseconds ≤ 8640000000000000) ∧
    (milliseconds = 8640000000000000 → microsecond = 0) := by
  simp only [validate, Bool.and_eq_true, Bool.not_eq_true', Bool.or_eq_false_iff,
    decide_eq_false_iff_not, Bool.and_eq_false_iff, beq_eq_false_iff_ne, bne_eq_false_iff_eq]
  unfold max_milliseconds_since_epoch
  omega

section
variable (hzone : ∀ x, -86400 ≤ zone x ∧ zone x ≤ 86400)
include hzone

/-- An offset of a time zone is at most a day. -/
lemma local_date_in_utc_micros_eq (self : DateTime)
    (hlo : -8640000000000001000 ≤ self.value) (hhi : self.value ≤ 8640000000000001000) :
    ∃ k, self.local_date_in_utc_micros zone = self.value + 1000 * k ∧ -86400000 ≤ k ∧ k ≤ 86400000 := by
  unfold local_date_in_utc_micros
  split_ifs
  · exact ⟨0, by omega, by decide, by decide⟩
  · obtain ⟨hzlow, hzhigh⟩ := hzone self.value
    unfold microseconds_per_second
    have hoff : Fits (zone self.value * 1000000) := ⟨by omega, by omega⟩
    have hlocal : Fits (self.value + zone self.value * 1000000) := ⟨by omega, by omega⟩
    rw [hoff.wrap_eq, hlocal.wrap_eq]
    exact ⟨zone self.value * 1000, by ring, by omega, by omega⟩

/-- The range is checked in milliseconds, with the microseconds of the last one. -/
lemma with_value_eq (h : Fits v) (is_utc : Bool) :
    with_value zone v is_utc = if InRange v then some ⟨v, is_utc⟩ else none := by
  by_cases hnear : -8640000000000001000 ≤ v ∧ v ≤ 8640000000000001000
  · obtain ⟨k, hlocal, hklow, hkhigh⟩ := local_date_in_utc_micros_eq hzone ⟨v, is_utc⟩ hnear.1 hnear.2
    have hroom : -2 ^ 63 + microseconds_per_day ≤ v + 1000 * k := by
      unfold microseconds_per_day
      omega
    obtain ⟨p, hp, -, -, hmicros, -⟩ := compute_upper_part_spec hroom (by omega)
    unfold microseconds_per_millisecond at hmicros
    have hmillis : floored_division v microseconds_per_millisecond = v / 1000 :=
      floored_division_eq h (by decide) (show Fits (v - 999) from ⟨by omega, by omega⟩)
    unfold with_value
    simp only [hlocal, hp, Option.bind_eq_bind, Option.bind_some, validate_iff, hmillis]
    exact if_congr (by rw [inRange_iff]; omega) rfl rfl
  have hmillis : floored_division v microseconds_per_millisecond < -8640000000000000 ∨
      8640000000000000 < floored_division v microseconds_per_millisecond := by
    by_cases hfits : Fits (v - 999)
    · rw [floored_division_eq h (by decide) hfits]
      unfold microseconds_per_millisecond
      omega
    obtain ⟨hlo, hhi⟩ := h
    have hsmall : v - 999 < -2 ^ 63 := by
      unfold Fits at hfits
      omega
    have hwrap : wrap (v - 999) = v - 999 + 2 ^ 64 := by
      have hagain : Fits (v - 999 + 2 ^ 64) := ⟨by omega, by omega⟩
      rw [← hagain.wrap_eq]
      exact (add_bmod_right _ _).symm
    rw [floored_division, if_pos (by omega)]
    unfold microseconds_per_millisecond
    rw [show (1000 : Int) - 1 = 999 from rfl, hwrap, tdiv_eq_ediv_of_nonneg (by omega)]
    omega
  unfold with_value
  dsimp only
  rw [if_neg (by rw [inRange_iff]; omega)]
  cases compute_upper_part (local_date_in_utc_micros zone ⟨v, is_utc⟩) with
  | none => rfl
  | some p =>
    have hinvalid : ¬ validate (floored_division v microseconds_per_millisecond) p.microsecond = true := by
      rw [validate_iff]
      omega
    exact if_neg hinvalid

end

lemma wrap_eq_self_iff {x : Int} : wrap x = x ↔ Fits x := ⟨fun h => h ▸ fits_wrap x, Fits.wrap_eq⟩

/-- A number that may have wrapped around is accepted only if it has not, just if it has not or
is out of range. -/
lemma with_wrapped_value_exact_iff (hzone : ∀ x, -86400 ≤ zone x ∧ zone x ≤ 86400) (is_utc : Bool) (x : Int) :
    (∀ r, with_value zone (wrap x) is_utc = some r → r.value = x) ↔ Fits x ∨ ¬InRange (wrap x) := by
  rw [with_value_eq hzone (fits_wrap x)]
  split_ifs with hrng
  · simp [hrng, wrap_eq_self_iff]
  · simp [hrng]

/-- Date arithmetic is exact or rejected just if the exact result has 64 bits, or what it wraps
around to is rejected; for `DateTime.utc`, if also the carried year is far enough from the limits. -/
theorem date_arithmetic_exact_iff (zone : Int → Int) (hzone : ∀ x, -86400 ≤ zone x ∧ zone x ≤ 86400)
    (date : BrokenDownDate) (self other : DateTime) (duration : Int) :
    (date.YearFits → ((∀ r, utc date = some r → r.value = date.instant) ↔
      Fits date.instant ∨ abs (wrap date.instant) > max_microseconds_since_epoch)) ∧
    ((∀ r, self.add zone duration = some r → r.value = self.value + duration) ↔
      Fits (self.value + duration) ∨ ¬InRange (wrap (self.value + duration))) ∧
    ((∀ r, self.subtract zone duration = some r → r.value = self.value - duration) ↔
      Fits (self.value - duration) ∨ ¬InRange (wrap (self.value - duration))) ∧
    (self.difference other = self.value - other.value ↔ Fits (self.value - other.value)) := by
  refine ⟨fun h => ?_, with_wrapped_value_exact_iff hzone _ _, with_wrapped_value_exact_iff hzone _ _, wrap_eq_self_iff⟩
  rw [utc_eq h]
  split_ifs with hbig
  · simp [hbig]
  · simp [hbig, wrap_eq_self_iff]

/-- The number of hours is out of range, but their microseconds wrap around to zero. -/
theorem utc_not_exact :
    utc ⟨1970, 1, 1, 2 ^ 54, 0, 0, 0, 0⟩ = some ⟨0, true⟩ ∧ instant ⟨1970, 1, 1, 2 ^ 54, 0, 0, 0, 0⟩ ≠ 0 ∧
      add id ⟨8000000000000000000, true⟩ 8000000000000000000 = some ⟨-2446744073709551616, true⟩ ∧
      difference ⟨8000000000000000000, true⟩ ⟨-8000000000000000000, true⟩ = -2446744073709551616 := by
  decide +kernel

theorem date_arithmetic_exact_next_year :
    ∃ r, utc ⟨2000, 14, 1, 24, 0, 0, 0, 0⟩ = some r ∧ r.value = instant ⟨2000, 14, 1, 24, 0, 0, 0, 0⟩ := by
  have hfits : YearFits ⟨2000, 14, 1, 24, 0, 0, 0, 0⟩ := ⟨by decide, by decide, by decide, by decide⟩
  have hex := (date_arithmetic_exact_iff (fun _ => 0) (fun _ => by decide) _ ⟨0, true⟩ ⟨0, true⟩ 0).1 hfits
  exact ⟨⟨981072000000000, true⟩, by decide +kernel, hex.mpr (.inl (by decide +kernel)) _ (by decide +kernel)⟩

end DateTime
end dart.core
