import Mathlib.Algebra.BigOperators.Group.Finset.Basic
import Mathlib.Tactic.IntervalCases
import Mathlib.Tactic.Ring

/-!
The proleptic Gregorian calendar. Days are counted from the first day of 1970, and the
months of a year from zero.
-/

namespace gregorian

def IsLeap (y : Int) : Prop := y % 4 = 0 ∧ (y % 100 ≠ 0 ∨ y % 400 = 0)

instance (y : Int) : Decidable (IsLeap y) := inferInstanceAs (Decidable (_ ∧ _))

section
variable (y : Int)

def yearLength : Int := if IsLeap y then 366 else 365

def monthLengths : List Int :=
  [31, if IsLeap y then 29 else 28, 31, 30, 31, 30, 31, 31, 30, 31, 30, 31]

def monthLength (m : Nat) : Int := (monthLengths y).getD m 0

/-- The days between the beginning of 1970 and the beginning of a year, negative before 1970. -/
def yearStart : Int :=
  ∑ i ∈ Finset.range (y - 1970).toNat, yearLength (1970 + i) -
    ∑ i ∈ Finset.range (1970 - y).toNat, yearLength (1969 - i)

def monthStart (m : Nat) : Int := ((monthLengths y).take m).sum

def dayNumber (m : Nat) (d : Int) : Int := yearStart y + monthStart y m + (d - 1)

end

/-- Monday is 1 and Sunday is 7. The first day of 1970 was a Thursday. -/
def isoWeekday (n : Int) : Int := (n + 3) % 7 + 1

structure IsDate (y : Int) (m : Nat) (d : Int) : Prop where
  month_lt : m < 12
  day_pos : 1 ≤ d
  day_le : d ≤ monthLength y m

lemma yearStart_succ (y : Int) : yearStart (y + 1) = yearStart y + yearLength y := by
  unfold yearStart
  by_cases h : 1970 ≤ y
  · rw [show (y + 1 - 1970).toNat = (y - 1970).toNat + 1 by omega, Finset.sum_range_succ, show (1970 - (y + 1)).toNat =
      0 by omega, show (1970 - y).toNat = 0 by omega, show (1970 : Int) + (y - 1970).toNat = y by omega]
    ring
  rw [show (1970 - y).toNat = (1970 - (y + 1)).toNat + 1 by omega, Finset.sum_range_succ, show (y + 1 - 1970).toNat =
    0 by omega, show (y - 1970).toNat = 0 by omega, show (1969 : Int) - (1970 - (y + 1)).toNat = y by omega]
  ring

/-- A leap day is inserted every four years, but three times less often every 400 years. -/
lemma yearStart_eq (y : Int) :
    yearStart y = 365 * (y - 1970) + (y - 1969) / 4 - (y - 1901) / 100 + (y - 1601) / 400 := by
  induction y using Int.inductionOn' with
  | b => exact 1970
  | zero => rfl
  | succ k hk ih =>
    rw [yearStart_succ, ih, yearLength]
    split_ifs with hleap <;> unfold IsLeap at hleap <;> omega
  | pred k hk ih =>
    obtain ⟨j, rfl⟩ : ∃ j, k = j + 1 := ⟨k - 1, by omega⟩
    rw [yearStart_succ, yearLength] at ih
    rw [add_sub_cancel_right]
    split_ifs at ih with hleap <;> unfold IsLeap at hleap <;> omega

section

/-! A year is in a cycle of 400 years, one of 100 years in it and one of 4 years in that. -/

variable {y c q r s : Int} (hy : y = 400 * c + 100 * q + 4 * r + s) (hq : 0 ≤ q) (hr : 0 ≤ r) (hs : 0 ≤ s)
  (h : q ≤ 3 ∧ r ≤ 24 ∧ s ≤ 3)
include hy hq hr hs h

lemma isLeap_iff_of_cycles : IsLeap y ↔ (q = 0 ∨ r ≠ 0) ∧ s = 0 := by
  unfold IsLeap
  rw [show y % 4 = s by omega, show y % 100 = 4 * r + s by omega, show y % 400 = 100 * q + 4 * r + s by omega]
  omega

lemma yearStart_of_cycles :
    yearStart y = 146097 * c + 36524 * q + 1461 * r + 365 * s - 719528 + (if s = 0 then 0 else 1) -
      (if 4 * r + s = 0 then 0 else 1) + if 100 * q + 4 * r + s = 0 then 0 else 1 := by
  have h4 : (y - 1969) / 4 = 100 * c + 25 * q + r - 493 + if s = 0 then 0 else 1 := by split_ifs <;> omega
  have h100 : (y - 1901) / 100 = 4 * c + q - 20 + if 4 * r + s = 0 then 0 else 1 := by split_ifs <;> omega
  have h400 : (y - 1601) / 400 = c - 5 + if 100 * q + 4 * r + s = 0 then 0 else 1 := by split_ifs <;> omega
  rw [yearStart_eq, h4, h100, h400, hy]
  ring

end

lemma monthStart_succ (y : Int) (m : Nat) : monthStart y (m + 1) = monthStart y m + monthLength y m := by
  unfold monthStart monthLength
  rw [List.take_add_one, List.sum_append, List.getD_eq_getElem?_getD]
  cases (monthLengths y)[m]? <;> simp

lemma monthLength_nonneg (y : Int) (m : Nat) : 0 ≤ monthLength y m := by
  by_cases h : m < 12
  · unfold monthLength monthLengths
    split_ifs <;> interval_cases m <;> decide
  · rw [monthLength, List.getD_eq_getElem?_getD, List.getElem?_eq_none (by simpa [monthLengths] using h)]
    rfl

lemma monthStart_mono (y : Int) {m m' : Nat} (h : m ≤ m') : monthStart y m ≤ monthStart y m' :=
  monotone_nat_of_le_succ (fun m => by
    rw [monthStart_succ]
    exact le_add_of_nonneg_right (monthLength_nonneg y m)) h

lemma monthStart_twelve (y : Int) : monthStart y 12 = yearLength y := by
  unfold monthStart monthLengths yearLength
  split_ifs <;> rfl

variable {y y' d d' : Int} {m m' : Nat}

lemma yearLength_pos (y : Int) : 0 < yearLength y := by
  unfold yearLength
  split_ifs <;> decide

lemma yearStart_mono (h : y ≤ y') : yearStart y ≤ yearStart y' :=
  monotone_int_of_le_succ (fun y => by
    rw [yearStart_succ]
    exact le_add_of_nonneg_right (yearLength_pos y).le) h

variable (h : IsDate y m d)
include h

/-- The days of a month end before the next month begins. -/
lemma IsDate.lt_monthStart (hm : m < m') : monthStart y m + (d - 1) < monthStart y m' := by
  have hnext := monthStart_mono y hm
  have hle := h.day_le
  rw [Nat.succ_eq_add_one, monthStart_succ] at hnext
  omega

lemma IsDate.dayNumber_mem : yearStart y ≤ dayNumber y m d ∧ dayNumber y m d < yearStart (y + 1) := by
  have hpos := h.day_pos
  have hstart : 0 ≤ monthStart y m := monthStart_mono y (Nat.zero_le m)
  have hend := h.lt_monthStart h.month_lt
  rw [monthStart_twelve] at hend
  rw [yearStart_succ, dayNumber]
  omega

/-- Later dates have larger numbers. -/
lemma dayNumber_lt (h' : IsDate y' m' d')
    (hlex : y < y' ∨ y = y' ∧ (m < m' ∨ m = m' ∧ d < d')) : dayNumber y m d < dayNumber y' m' d' := by
  rcases hlex with hyear | ⟨rfl, hmonth | ⟨rfl, hday⟩⟩
  · exact (h.dayNumber_mem.2.trans_le (yearStart_mono hyear)).trans_le h'.dayNumber_mem.1
  · have hend := h.lt_monthStart hmonth
    have hpos := h'.day_pos
    unfold dayNumber
    omega
  · unfold dayNumber
    omega

end gregorian
