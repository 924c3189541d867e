import DartVM.BigInt.Classic
import DartVM.BigInt.MontgomeryForm

namespace dart.bigint
open loops

/-- The interface for modular reduction. -/
inductive Reduction where
  | montgomery (z : MontgomeryReduction)
  | classic (z : ClassicReduction)

namespace Reduction

def norm_modulus_used : Reduction → Nat
  | montgomery z => z.norm_modulus_used
  | classic z => z.norm_modulus_used

def convert (p : Primitives) (z : Reduction) (x : BigIntImpl) (result_digits : Uint32List) :
    Checked (Uint32List × Nat) :=
  match z with
  | montgomery z => z.convert p x result_digits
  | classic z => z.convert p x result_digits

def mul (p : Primitives) (z : Reduction) (x_digits : Uint32List) (x_used : Nat) (y_digits : Uint32List) (y_used : Nat)
    (result_digits : Uint32List) : Checked (Reduction × Uint32List × Nat) :=
  match z with
  | montgomery z => do
    let (z, result) ← z.mul p x_digits x_used y_digits y_used result_digits
    return (montgomery z, result)
  | classic z => do
    let (z, result) ← z.mul p x_digits x_used y_digits y_used result_digits
    return (classic z, result)

def sqr (p : Primitives) (z : Reduction) (x_digits : Uint32List) (x_used : Nat) (result_digits : Uint32List) :
    Checked (Reduction × Uint32List × Nat) :=
  match z with
  | montgomery z => do
    let (z, result) ← z.sqr p x_digits x_used result_digits
    return (montgomery z, result)
  | classic z => do
    let (z, result) ← z.sqr p x_digits x_used result_digits
    return (classic z, result)

def revert (p : Primitives) (z : Reduction) (x_digits : Uint32List) (x_used : Nat) : Checked BigIntImpl :=
  match z with
  | montgomery z => z.revert p x_digits x_used
  | classic _ => ClassicReduction.revert x_digits x_used

end Reduction

/-- The reduction and the two arrays for results, which are swapped. -/
structure Powering where
  z : Reduction
  result_digits : Uint32List
  result_used : Nat
  result2_digits : Uint32List
  result2_used : Nat

namespace Powering

/-- Swaps `result` and `result2`. -/
def swap (s : Powering) : Powering := ⟨s.z, s.result2_digits, s.result2_used, s.result_digits, s.result_used⟩

/-- `result2 = result^2`. -/
def square (p : Primitives) (s : Powering) : Checked Powering := do
  let (z, result2_digits, result2_used) ← s.z.sqr p s.result_digits s.result_used s.result2_digits
  return ⟨z, s.result_digits, s.result_used, result2_digits, result2_used⟩

/-- `result = result2*g`. -/
def multiply (p : Primitives) (g : Uint32List × Nat) (s : Powering) : Checked Powering := do
  let (z, result_digits, result_used) ← s.z.mul p s.result2_digits s.result2_used g.1 g.2 s.result_digits
  return ⟨z, result_digits, result_used, s.result2_digits, s.result2_used⟩

end Powering

/-- A bit of the exponent. -/
def bit_set (digits : Uint32List) (i : Nat) : Checked Bool := do
  return (← digits.read (i / digit_bits)) &&& (1 <<< (i % digit_bits)) ≠ 0

section
variable (p : Primitives)

/-- One bit of the exponent, when the bits are processed one by one. -/
def bit_step (exponent_digits : Uint32List) (g : Uint32List × Nat) (s : Powering) (i : Nat) : Checked Powering := do
  let s ← s.square p
  if (← bit_set exponent_digits i) then s.multiply p g else return s.swap

/-- A copy of `g`, with the leading zero if any, in a new array. -/
def initial_result (z : Reduction) (g : Uint32List × Nat) : Checked (Uint32List × Nat) := do
  return (← copy_digits (g.2 + (g.2 &&& 1)) g.1 (new_digits (2 * z.norm_modulus_used + 2)), g.2)

/-- The exponent is processed bit by bit. -/
def bitwise_power (z : Reduction) (x exponent : BigIntImpl) (exponent_bitlen : Nat) : Checked BigIntImpl := do
  let g ← z.convert p x (new_digits z.norm_modulus_used)
  let result ← initial_result z g
  let s ← (List.range (exponent_bitlen - 1)).reverse.foldlM (bit_step p exponent.digits g)
    ⟨z, result.1, result.2, new_digits (2 * z.norm_modulus_used + 2), 0⟩
  s.z.revert p s.result_digits s.result_used

/-- The number of bits that are processed at once. -/
def window_bits (exponent_bitlen : Nat) : Nat :=
  if exponent_bitlen < 18 then 1
  else if exponent_bitlen < 48 then 3
  else if exponent_bitlen < 144 then 4
  else if exponent_bitlen < 768 then 5
  else 6

/-- The powers with an odd exponent below `2^k`, `null` at the other indices. -/
abbrev OddPowers := List (Option (Uint32List × Nat))

def OddPowers.get (g : OddPowers) (n : Nat) : Checked (Uint32List × Nat) :=
  match g[n]? with
  | some (some power) => .ok power
  | _ => .error .out_of_bounds

/-- The loop `while (n <= km)`. -/
def odd_powers_loop (p : Primitives) (g2 : Uint32List × Nat) (km : Nat) :
    Nat → Reduction → OddPowers → Nat → Checked (Reduction × OddPowers)
  | 0, _, _, _ => .error .out_of_fuel
  | fuel + 1, z, g, n =>
    if n ≤ km then do
      let (z, power) ← z.mul p g2.1 g2.2 (← g.get (n - 2)).1 (← g.get (n - 2)).2 (new_digits (2 * z.norm_modulus_used + 2))
      odd_powers_loop p g2 km fuel z (g.set n (some power)) (n + 2)
    else
      .ok (z, g)

/-- The powers that the windows need. -/
def odd_powers (z : Reduction) (x : BigIntImpl) (k : Nat) : Checked (Reduction × OddPowers) := do
  let km := (1 <<< k) - 1
  let g1 ← z.convert p x (new_digits z.norm_modulus_used)
  let g : OddPowers := (List.replicate (km + 1) none).set 1 (some g1)
  if 1 < k then
    let (z, g2) ← z.sqr p g1.1 g1.2 (new_digits (2 * z.norm_modulus_used + 2))
    odd_powers_loop p g2 km (km + 1) z g 3
  else
    return (z, g)

/-- A place in the exponent: the index of a digit, which is -1 at the end, and of a bit. -/
structure Position where
  j : Int
  i : Nat

/-- The place `n` bits further down. -/
def Position.back (pos : Position) (n : Nat) : Position :=
  let i : Int := pos.i - n
  if i < 0 then ⟨pos.j - 1, (i + digit_bits).toNat⟩ else ⟨pos.j, i.toNat⟩

/-- The `k` bits of the exponent from a place down, of which those below the exponent are zero. -/
def window (digits : Uint32List) (k j i : Nat) : Checked Nat := do
  let k1 := k - 1
  let km := (1 <<< k) - 1
  if k1 ≤ i then
    return ((← digits.read j) >>> (i - k1)) &&& km
  else
    let w := ((← digits.read j) &&& ((1 <<< (i + 1)) - 1)) <<< (k1 - i)
    if 0 < j then
      return w ||| (← digits.read (j - 1)) >>> (digit_bits + i - k1)
    else
      return w

/-- The loop `while ((w & 1) == 0)`. -/
def strip_zeros : Nat → Nat → Nat → Checked (Nat × Nat)
  | 0, _, _ => .error .out_of_fuel
  | fuel + 1, w, n => if w &&& 1 = 0 then strip_zeros fuel (w >>> 1) (n - 1) else .ok (w, n)

/-- `result2 = result^(2^n)`, two squarings at a time. -/
def square_times (p : Primitives) : Nat → Powering → Checked Powering
  | 0, s => .ok s.swap
  | 1, s => s.square p
  | n + 2, s => do square_times p n (← (← s.square p).swap.square p).swap

/-- The loop over the zeros of the exponent that follow a window. -/
def skip_zeros (p : Primitives) (exponent_digits : Uint32List) :
    Nat → Powering → Position → Checked (Powering × Position)
  | 0, _, _ => .error .out_of_fuel
  | fuel + 1, s, pos =>
    if 0 ≤ pos.j then do
      if (← exponent_digits.read pos.j.toNat) &&& (1 <<< pos.i) = 0 then
        skip_zeros p exponent_digits fuel (← s.square p).swap (pos.back 1)
      else
        return (s, pos)
    else
      .ok (s, pos)

/-- One window: `n` squarings and a multiplication, except that a result of one is replaced. -/
def window_step (g : OddPowers) (w n : Nat) (is_one : Bool) (s : Powering) : Checked Powering := do
  if is_one then
    let result ← initial_result s.z (← g.get w)
    return { s with result_digits := result.1, result_used := result.2 }
  else
    (← square_times p n s).multiply p (← g.get w)

/-- The loop `while (j >= 0)`. -/
def window_loop (p : Primitives) (exponent_digits : Uint32List) (k : Nat) (g : OddPowers) :
    Nat → Bool → Powering → Position → Checked (Bool × Powering)
  | 0, _, _, _ => .error .out_of_fuel
  | fuel + 1, is_one, s, pos =>
    if 0 ≤ pos.j then do
      let w ← window exponent_digits k pos.j.toNat pos.i
      let (w, n) ← strip_zeros k w k
      let s ← window_step p g w n is_one s
      let (s, pos) ← skip_zeros p exponent_digits fuel s (pos.back n)
      window_loop p exponent_digits k g fuel false s pos
    else
      .ok (is_one, s)

/-- The exponent is processed in windows. -/
def window_power (z : Reduction) (x exponent : BigIntImpl) (exponent_bitlen : Nat) : Checked BigIntImpl := do
  let k := window_bits exponent_bitlen
  let (z, g) ← odd_powers p z x k
  let j := exponent.used - 1
  let i := bit_length (← exponent.digits.read j) - 1
  let (is_one, s) ← window_loop p exponent.digits k g (digit_bits * exponent.used + 1) true
    ⟨z, BigIntImpl.one.digits, BigIntImpl.one.used, new_digits (2 * z.norm_modulus_used + 2), 0⟩ ⟨j, i⟩
  check !is_one
  s.z.revert p s.result_digits s.result_used

end

namespace BigIntImpl

def is_even (x : BigIntImpl) : Checked Bool :=
  if x.used = 0 then .ok true else do return (← x.digits.read 0) &&& 1 = 0

/-- `bitLength`. -/
def bit_length (x : BigIntImpl) : Checked Nat :=
  if x.used = 0 then .ok 0 else do
    let high_bits ← x.digits.read (x.used - 1)
    check (high_bits ≠ 0)
    let length := digit_bits * (x.used - 1) + bigint.bit_length high_bits
    if ¬x.is_negative then return length
    if high_bits &&& (high_bits - 1) ≠ 0 then return length
    if (← any_digit x.digits (x.used - 1)) then return length
    return length - 1

/-- What `modPow` throws: an `ArgumentError`, with its message and the value at the end of it. -/
inductive Rejected where
  | argument_error (message : String) (value : BigIntImpl)
  | fault (f : Fault)

variable (p : Primitives)

/-- The reduction that is chosen, and whether the exponent is processed bit by bit. -/
def choose_reduction (x modulus : BigIntImpl) (exponent_bitlen : Nat) : Checked (Reduction × Bool) := do
  let cannot_use_montgomery := (← modulus.is_even) || 0 ≤ (← (← x.abs).compare_to modulus)
  if cannot_use_montgomery ∨ exponent_bitlen < 8 then
    return (.classic (← ClassicReduction.create modulus), true)
  else
    return (.montgomery (← MontgomeryReduction.create p modulus), exponent_bitlen < 64)

variable (x exponent modulus : BigIntImpl)

/-- The part of `modPow` that follows the checks of its arguments. -/
def power : Checked BigIntImpl := do
  if exponent.is_zero then return one
  let exponent_bitlen ← exponent.bit_length
  if exponent_bitlen ≤ 0 then return one
  let (z, bitwise) ← choose_reduction p x modulus exponent_bitlen
  if bitwise then bitwise_power p z x exponent exponent_bitlen else window_power p z x exponent exponent_bitlen

def mod_pow : Except Rejected BigIntImpl := do
  if exponent.is_negative then
    throw (.argument_error "exponent must be positive: " exponent)
  if (← (modulus.compare_to zero).mapError .fault) ≤ 0 then
    throw (.argument_error "modulus must be strictly positive: " modulus)
  (power p x exponent modulus).mapError .fault

end BigIntImpl
end dart.bigint
