import DartVM.Core.DateArithmetic

namespace dart.core.DateTime
open int64 Duration Option

section
variable (zone : Int → Int)

/-- `_timeZoneOffsetInSeconds`, in microseconds. -/
def offset_at (t : Int) : Int := zone t * microseconds_per_second

/-- The end of `_toLocalTimeOffset`: an earlier time zone may have a solution too. -/
def earlier_offset (w offset : Int) : Int :=
  let offset4 := offset_at zone (w - offset - 2 * microseconds_per_hour)
  if offset4 > offset then
    if offset4 = offset + 2 * microseconds_per_hour then offset4
    else
      let offset5 := offset_at zone (w - offset4)
      if offset5 = offset4 then offset4 else offset
  else offset

/-- `_toLocalTimeOffset`. It is called for numbers that are far from the limits of 64 bits. -/
def to_local_time_offset (w : Int) : Int :=
  let offset := offset_at zone w
  if offset ≠ 0 then
    let offset2 := offset_at zone (w - offset)
    if offset2 ≠ offset then
      let offset3 := offset_at zone (w - offset2)
      if offset2 ≤ offset3 then offset2 else offset3
    else earlier_offset zone w offset2
  else earlier_offset zone w offset

/-- The local time at an instant is the wall-clock time. -/
def Shows (w t : Int) : Prop := t + offset_at zone t = w

/-- The offsets are less than a day. In the three days around a wall-clock time they change at most once, by at most two
hours. -/
structure ChangesOnce (w : Int) where
  change : Int
  before : Int
  after : Int
  offset_lt (t : Int) : -86400000000 < offset_at zone t ∧ offset_at zone t < 86400000000
  offset_eq (t : Int) : w - 129600000000 ≤ t → t ≤ w + 129600000000 →
    offset_at zone t = if t < change then before else after
  step_le : before ≤ after + 7200000000 ∧ after ≤ before + 7200000000

end

variable {zone : Int → Int} {w : Int}

namespace ChangesOnce
variable (h : ChangesOnce zone w)

/-- Close to the wall-clock time there are two offsets. -/
lemma offset_cases {t : Int} (hlo : w - 129600000000 ≤ t) (hhi : t ≤ w + 129600000000) :
    t < h.change ∧ offset_at zone t = h.before ∨ h.change ≤ t ∧ offset_at zone t = h.after := by
  rw [h.offset_eq t hlo hhi]
  split_ifs with hlt
  · exact .inl ⟨hlt, rfl⟩
  · exact .inr ⟨not_lt.mp hlt, rfl⟩

lemma bounds : -93600000000 < h.before ∧ h.before < 93600000000 ∧ -93600000000 < h.after ∧ h.after < 93600000000 ∧
    h.before ≤ h.after + 7200000000 := by
  have hlt := h.offset_lt w
  have hstep := h.step_le
  have hcases := h.offset_cases (t := w) (by omega) (by omega)
  omega

/-- A solution before the change is the earliest one. -/
lemma earlier_offset_before (hlt : w - h.before < h.change) : earlier_offset zone w h.before = h.before := by
  have hbounds := h.bounds
  have hprobe := h.offset_cases (t := w - h.before - 2 * 3600000000) (by omega) (by omega)
  unfold earlier_offset microseconds_per_hour
  exact if_neg (by omega)

/-- After the change, the earlier solution is found if there is one. -/
lemma earlier_offset_after (hle : h.change ≤ w - h.after) : earlier_offset zone w h.after =
    if w - h.before < h.change then h.before else h.after := by
  have hbounds := h.bounds
  have hbefore := h.offset_cases (t := w - h.before) (by omega) (by omega)
  unfold earlier_offset microseconds_per_hour
  dsimp only
  obtain ⟨hlt, hprobe⟩ | ⟨hge, hprobe⟩ := h.offset_cases (t := w - h.after - 2 * 3600000000) (by omega) (by omega)
  · rw [hprobe]
    split_ifs <;> omega
  · rw [hprobe, if_neg (lt_irrefl _), if_neg (by omega)]

/-- Where the earlier offset has a solution, or none of them has one, it is the result. -/
lemma to_local_time_offset_eq : to_local_time_offset zone w =
    if w - h.before < h.change ∨ w - h.after < h.change then h.before else h.after := by
  have hbounds := h.bounds
  have hbefore := h.offset_cases (t := w - h.before) (by omega) (by omega)
  have hafter := h.offset_cases (t := w - h.after) (by omega) (by omega)
  have hsolved := h.earlier_offset_before
  have hearlier := h.earlier_offset_after
  unfold to_local_time_offset
  dsimp only
  obtain ⟨hw, hat⟩ | ⟨hw, hat⟩ := h.offset_cases (t := w) (by omega) (by omega)
  · rw [hat]
    obtain ⟨hlt, hsecond⟩ | ⟨hge, hsecond⟩ := hbefore
    · rw [hsecond, hsolved hlt]
      split_ifs <;> omega
    · rw [hsecond]
      split_ifs at hearlier ⊢ <;> omega
  · rw [hat]
    obtain ⟨hlt, hsecond⟩ | ⟨hge, hsecond⟩ := hafter
    · rw [hsecond]
      split_ifs <;> omega
    · rw [hsecond, hearlier hge]
      split_ifs <;> omega

end ChangesOnce

/-- The offset leads to the earliest instant at which the local time is the wall-clock time. If there is none, it is the
one before the change. A local time that is built from fields that exist shows them again. -/
theorem to_local_time_offset_correct (zone : Int → Int) (w : Int) (h : ChangesOnce zone w) :
    let offset := to_local_time_offset zone w
    (∀ t, Shows zone w t → Shows zone w (w - offset) ∧ w - offset ≤ t) ∧
    ((∀ t, ¬Shows zone w t) → offset = h.before) ∧
    ∀ t date, Shows zone w t → date.Valid → date.instant = w → InRange (w - offset) →
      ∃ d p, of_date (to_local_time_offset zone) date false = some d ∧
        compute_upper_part (d.local_date_in_utc_micros zone) = some p ∧ p.fields = date.fields := by
  intro offset
  have hoffset : offset = _ := h.to_local_time_offset_eq
  have hbounds := h.bounds
  have hbefore := h.offset_cases (t := w - h.before) (by omega) (by omega)
  have hafter := h.offset_cases (t := w - h.after) (by omega) (by omega)
  have hearliest (t : Int) (ht : Shows zone w t) : Shows zone w (w - offset) ∧ w - offset ≤ t := by
    have hlt := h.offset_lt t
    unfold Shows at ht ⊢
    have hcases := h.offset_cases (t := t) (by omega) (by omega)
    split_ifs at hoffset <;> rw [hoffset] <;> omega
  refine ⟨hearliest, fun hnone => ?_, fun t date ht hvalid hinst hrange => ?_⟩
  · have hno := hnone (w - h.after)
    unfold Shows at hno
    split_ifs at hoffset <;> omega
  · obtain ⟨hlo, hhi⟩ := inRange_iff.mp hrange
    have hzone := h.offset_lt (w - offset)
    have hshows : w - offset + offset_at zone (w - offset) = w := (hearliest t ht).1
    have hfits : Fits w := ⟨by omega, by omega⟩
    have hvalue : Fits (w - offset) := ⟨by omega, by omega⟩
    have habs : abs w ≤ max_microseconds_since_epoch + microseconds_per_day :=
      abs_le (by unfold max_microseconds_since_epoch microseconds_per_day; omega)
        (by unfold max_microseconds_since_epoch microseconds_per_day; omega) (by decide)
    have hd : of_date (to_local_time_offset zone) date false = some ⟨w - offset, false⟩ := by
      rw [of_date, broken_down_date_to_value_eq (yearFits_of_instant_mem hvalid (hinst ▸ hfits)), hinst, hfits.wrap_eq,
        hvalue.wrap_eq, if_neg Bool.false_ne_true, if_neg habs.not_gt, bind_some,
        if_neg (abs_le hrange.1 hrange.2 (by decide)).not_gt]
      exact if_neg (by unfold sentinel max_microseconds_since_epoch; dsimp only [getD_some]; omega)
    have hlocal : local_date_in_utc_micros zone ⟨w - offset, false⟩ = w := by
      have hoff : Fits (offset_at zone (w - offset)) := ⟨by omega, by omega⟩
      rw [local_date_in_utc_micros, if_neg Bool.false_ne_true, ← offset_at, hoff.wrap_eq, hshows, hfits.wrap_eq]
    obtain ⟨p, hp, hok, hpinst, -, -⟩ := compute_upper_part_spec (v := w) (by unfold microseconds_per_day; omega) hfits.2
    refine ⟨_, p, hd, by rw [hlocal, hp], ?_⟩
    -- later fields would be those of a later instant
    rcases lt_trichotomy p.fields date.fields with hlt | heq | hgt
    · have hinstants := hok.instant_lt hvalid hlt
      omega
    · exact heq
    · have hinstants := hvalid.instant_lt hok hgt
      omega

/-- A zone that moves the clock forward by an hour at the epoch. -/
def spring (t : Int) : Int := if t < 0 then 0 else 3600

theorem to_local_time_offset_spring : Shows spring 7200000000 3600000000 ∧
    7200000000 - to_local_time_offset spring 7200000000 ≤ 3600000000 := by
  have hzone : ChangesOnce spring 7200000000 := ⟨0, 0, 3600000000,
    fun t => by unfold offset_at spring; split_ifs <;> decide,
    fun t _ _ => by unfold offset_at spring; split_ifs <;> rfl, by decide⟩
  have hshows : Shows spring 7200000000 3600000000 := rfl
  exact ⟨hshows, ((to_local_time_offset_correct spring _ hzone).1 _ hshows).2⟩

end dart.core.DateTime
