import DartVM.BigInt.Shift
import DartVM.Lib.LongDivision

namespace dart.bigint
open loops

/-- Indices of the arguments of `_estimateQuotientDigit`. -/
abbrev divisor_low_top_digit : Nat := 0
abbrev divisor_top_digit : Nat := 1
abbrev quotient_digit : Nat := 2
abbrev quotient_high_digit : Nat := 3

/-- Truncating division, which throws when the divisor is zero. -/
def divide (dividend divisor : Nat) : Checked Nat :=
  if divisor = 0 then .error .overflow else .ok (dividend / divisor)

variable (p : Primitives)

/-- Estimates `args[_quotientDigit] = digits[i-1..i] ~/ args[_divisorTopDigit]`, or with digit
pairs `digits[i-3..i] ~/ args[_divisorLowTopDigit.._divisorTopDigit]`, and the number of
digits processed. -/
def estimate_quotient_digit (args digits : Uint32List) (i : Nat) : Checked (Uint32List × Nat) :=
  match p with
  | .pure_dart => do
    check (4 ≤ digits.length)
    let digit ← digits.read i
    let divisor ← args.read divisor_top_digit
    if digit = divisor then
      return (← args.write quotient_digit (digit_mask : Nat), 1)
    else
      -- Chop off one bit, since a Mint cannot hold 2 digits.
      let dividend ← fit ((digit <<< (digit_bits - 1)) ||| ((← digits.read (i - 1)) >>> 1))
      let quotient ← divide dividend (divisor >>> 1)
      if quotient > digit_mask then
        return (← args.write quotient_digit (digit_mask : Nat), 1)
      else
        return (← args.write quotient_digit (quotient : Nat), 1)
  | .intrinsics => do
    let yt ← Primitives.intrinsics.read args divisor_low_top_digit
    let dh ← Primitives.intrinsics.read digits (i - 1)
    if dh = yt then
      return (← Primitives.intrinsics.write args quotient_digit (2 ^ 64 - 1), 2)
    else
      let dl ← Primitives.intrinsics.read digits (i - 3)
      -- The quotient has to fit in a register.
      if dh < yt then
        return (← Primitives.intrinsics.write args quotient_digit ((dh <<< 64 + dl) / yt), 2)
      else
        .error .overflow

/-- Whether the estimated quotient is larger than the digits in its place. -/
def needs_correction (args result_digits : Uint32List) (i : Nat) : Checked Bool :=
  match p with
  | .pure_dart => do return (← result_digits.read i) < (← args.read quotient_digit)
  | .intrinsics => do
    check ((← result_digits.read i) ≤ (← args.read quotient_high_digit))
    return (← result_digits.read i) < (← args.read quotient_high_digit) ||
      (← result_digits.read (i - 1)) < (← args.read quotient_digit)

/-- Decrements the quotient and tests again whether it is too large. -/
def decrement_quotient (args result_digits : Uint32List) (i : Nat) : Checked (Uint32List × Bool) :=
  match p with
  | .pure_dart => do
    let quotient : Int := (← args.read quotient_digit : Nat) - 1
    let args ← args.write quotient_digit quotient
    return (args, ((← result_digits.read i : Nat) : Int) < quotient)
  | .intrinsics => do
    let low ← args.read quotient_digit
    let high ← args.read quotient_high_digit
    let args ← args.write quotient_high_digit (if low = 0 then (high : Int) - 1 else high)
    let args ← args.write quotient_digit ((low : Int) - 1)
    return (args, ← needs_correction .intrinsics args result_digits i)

/-- The divisor is added back until the quotient is right. -/
def correction_loop (p : Primitives) (result_used : Nat) (tmp_digits : Uint32List) (tmp_used i : Nat) :
    Nat → Uint32List → Uint32List → Checked (Uint32List × Uint32List)
  | 0, _, _ => .error .out_of_fuel
  | fuel + 1, args, result_digits => do
    let result_digits ← abs_sub .result result_used tmp_digits tmp_used result_digits
    let (args, again) ← decrement_quotient p args result_digits i
    if again then correction_loop p result_used tmp_digits tmp_used i fuel args result_digits
    else return (args, result_digits)

/-- What changes during a division: the estimated quotient, a temporary array, and the
remainder followed by the quotient. -/
structure Division where
  args : Uint32List
  tmp_digits : Uint32List
  result_digits : Uint32List

/-- Finds the next digits of the quotient, at place `i`, and the number of digits found. -/
def division_step (y_used result_used : Nat) (ny_digits : Uint32List) (s : Division) (i j : Nat) :
    Checked (Division × Nat) := do
  let (args, d0) ← estimate_quotient_digit p s.args s.result_digits i
  let (result_digits, d1) ← mul_add p args quotient_digit ny_digits 0 s.result_digits (j - d0) y_used
  check (d0 = d1)
  if (← needs_correction p args result_digits i) then
    let (tmp_digits, tmp_used) ← dl_shift_digits (.array ny_digits) y_used (j - d0) s.tmp_digits
    let (args, result_digits) ← correction_loop p result_used tmp_digits tmp_used i (← p.read args quotient_digit) args
      result_digits
    return (⟨args, tmp_digits, result_digits⟩, d0)
  else
    return (⟨args, s.tmp_digits, result_digits⟩, d0)

/-- The loop `while (j > 0)`. -/
def division_loop (p : Primitives) (y_used result_used : Nat) (ny_digits : Uint32List) :
    Nat → Division → Nat → Nat → Checked Division
  | 0, _, _, _ => .error .out_of_fuel
  | fuel + 1, s, i, j =>
    if 0 < j then do
      let (s, d0) ← division_step p y_used result_used ny_digits s i j
      division_loop p y_used result_used ny_digits fuel s (i - d0) (j - d0)
    else
      .ok s

/-- Explicit first division step in case the normalized dividend is larger or equal to the
shifted normalized divisor. -/
def first_division_step (i result_used : Nat) (tmp_digits : Uint32List) (tmp_used : Nat) (result_digits : Uint32List) :
    Checked Uint32List := do
  if 0 ≤ (← compare_digits result_digits result_used tmp_digits tmp_used) then
    check (i = result_used)
    let result_digits ← result_digits.write result_used 1
    let result_digits ← abs_sub .result (result_used + 1) tmp_digits tmp_used result_digits
    clear_leading (result_used + 1) result_digits
  else
    let result_digits ← result_digits.write result_used 0
    clear_leading (result_used + 1) result_digits

/-- The part that `_divRem` and `_remDigits` have in common: divides
`resultDigits[0..resultUsed-1]` by a normalized divisor. Afterwards
`resultDigits[0..yUsed-1]` is the remainder and `resultDigits[yUsed..resultUsed]` is the
quotient. -/
def long_division (args y_digits : Uint32List) (y_used : Nat) (ny_digits tmp_digits : Uint32List)
    (result_digits : Uint32List) (result_used : Nat) : Checked Division := do
  check (y_used % 2 = 0)
  let i := result_used + (result_used &&& 1)
  -- A negative shift accesses digits out of bounds.
  if i < y_used then .error .out_of_bounds else
    let j := i - y_used
    let (tmp_digits, tmp_used) ← dl_shift_digits (.array y_digits) y_used j tmp_digits
    let result_digits ← first_division_step i result_used tmp_digits tmp_used result_digits
    division_loop p y_used (result_used + 1) ny_digits (j + 1) ⟨args, tmp_digits, result_digits⟩ (i - 1) j

end dart.bigint
