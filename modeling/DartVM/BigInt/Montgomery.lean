import Mathlib.Data.Nat.Prime.Basic
import DartVM.BigInt.DivRem
import DartVM.BigInt.Square
import DartVM.Lib.Montgomery

namespace dart.bigint
open loops montgomery Int BitVec Nat Uint32List Function positional

/-- Indices of the arguments of `_mulMod`. -/
abbrev x_digit : Nat := 0
abbrev x_high_digit : Nat := 1
abbrev rho_digit : Nat := 2
abbrev rho_high_digit : Nat := 3
abbrev mu_digit : Nat := 4

/-- Montgomery reduction. -/
structure MontgomeryReduction where
  modulus : BigIntImpl
  norm_modulus_used : Nat
  args : Uint32List
  digits_per_step : Nat

/-- `operator %` of machine integers. -/
def int_mod (a : BitVec 64) (b : Nat) : BitVec 64 := BitVec.ofInt 64 (a.toInt % b)

/-- What `_invDigit` and `_invDigitPair` have in common: `y == 1/x mod 2^16`. -/
def inverse_half_digit (x : BitVec 64) : BitVec 64 :=
  let y := x &&& 3
  let y := (y * (2 - (x &&& 0xf) * y)) &&& 0xf
  let y := (y * (2 - (x &&& 0xff) * y)) &&& 0xff
  (y * (2 - (((x &&& 0xffff) * y) &&& 0xffff))) &&& 0xffff

/-- `args[_rhoDigit] = -1/args[_xDigit] mod _digitBase`. -/
def inv_digit (args : Uint32List) : Checked Uint32List := do
  let x := BitVec.ofNat 64 (← args.read x_digit)
  let y := inverse_half_digit x
  let y := int_mod (y * (2 - int_mod (x * y) digit_base)) digit_base
  -- We really want the negative inverse.
  let y := -y
  let args ← args.write rho_digit (y &&& 0xffffffff).toNat
  check ((x * y) &&& 0xffffffff = 0xffffffff)
  return args

/-- `args[_rhoDigit.._rhoHighDigit] = -1/args[_xDigit.._xHighDigit] mod _digitBase^2`. -/
def inv_digit_pair (args : Uint32List) : Checked Uint32List := do
  let xl := BitVec.ofNat 64 (← args.read x_digit)
  let y := inverse_half_digit xl
  let y := (y * (2 - ((xl * y) &&& 0xffffffff))) &&& 0xffffffff
  let x := (BitVec.ofNat 64 (← args.read x_high_digit) <<< digit_bits) ||| xl
  -- Masking with 2^64-1 is implied by 64-bit arithmetic.
  let y := y * (2 - x * y)
  let y := -y
  let args ← args.write rho_digit (y &&& 0xffffffff).toNat
  let args ← args.write rho_high_digit (y.sshiftRight digit_bits &&& 0xffffffff).toNat
  check (x * y = -1)
  return args

/-- `args[_muDigit] = args[_rhoDigit]*digits[i] mod _digitBase`, and the number of digits that are
processed. -/
def mul_mod (p : Primitives) (args digits : Uint32List) (i : Nat) : Checked (Uint32List × Nat) :=
  match p with
  | .pure_dart => do
    let rhol := (← args.read rho_digit) &&& half_digit_mask
    let rhoh := (← args.read rho_digit) >>> half_digit_bits
    let dh := (← digits.read i) >>> half_digit_bits
    let dl := (← digits.read i) &&& half_digit_mask
    let mu := (dl * rhol + (((dl * rhoh + dh * rhol) &&& half_digit_mask) <<< half_digit_bits)) &&& digit_mask
    return (← args.write mu_digit (mu : Nat), 1)
  | .intrinsics => do
    let rho ← Primitives.intrinsics.read args rho_digit
    let d ← Primitives.intrinsics.read digits i
    return (← Primitives.intrinsics.write args mu_digit (Primitives.intrinsics.low (rho * d)), 2)

/-- The loop `while (i < _normModulusUsed)`. -/
def reduce_loop (p : Primitives) (modulus_digits : Uint32List) (norm_modulus_used digits_per_step : Nat) :
    Nat → Uint32List → Uint32List → Nat → Checked (Uint32List × Uint32List × Nat)
  | 0, _, _, _ => .error .out_of_fuel
  | fuel + 1, args, x_digits, i =>
    if i < norm_modulus_used then do
      let (args, d) ← mul_mod p args x_digits i
      check (d = digits_per_step)
      let (x_digits, d) ← mul_add p args mu_digit modulus_digits 0 x_digits i norm_modulus_used
      check (d = digits_per_step)
      reduce_loop p modulus_digits norm_modulus_used digits_per_step fuel args x_digits (i + d)
    else
      .ok (args, x_digits, i)

namespace MontgomeryReduction
variable (p : Primitives)

/-- The factory. -/
def create (modulus : BigIntImpl) : Checked MontgomeryReduction := do
  let args := new_digits 6
  -- Determine if we can process digit pairs by calling an intrinsic.
  let (args, digits_per_step) ← mul_mod p args args 0
  let args ← args.write x_digit (← modulus.digits.read 0 : Nat)
  if digits_per_step = 1 then
    return ⟨modulus, modulus.used, ← inv_digit args, digits_per_step⟩
  else
    check (digits_per_step = 2)
    let norm_modulus_used := modulus.used + (modulus.used &&& 1)
    let args ← args.write x_high_digit (← modulus.digits.read 1 : Nat)
    return ⟨modulus, norm_modulus_used, ← inv_digit_pair args, digits_per_step⟩

variable (z : MontgomeryReduction) (x_digits : Uint32List)

/-- Subtracts the modulus from a number that has at least as many digits and is not smaller. -/
def subtract_modulus (x_used : Nat) : Checked Uint32List := do
  if 0 ≤ (← compare_digits x_digits x_used z.modulus.digits z.norm_modulus_used) then
    abs_sub .result x_used z.modulus.digits z.norm_modulus_used x_digits
  else
    return x_digits

/-- `x = x/R mod _modulus`, and `xUsed`. -/
def reduce (x_used : Nat) : Checked (MontgomeryReduction × Uint32List × Nat) := do
  let room := 2 * z.norm_modulus_used + 2
  -- Pad x so _mulAdd has enough room later for a possible carry.
  let x_digits ← (List.range' x_used (room - x_used)).foldlM (fun digits i => digits.write i 0) x_digits
  let (args, x_digits, i) ← reduce_loop p z.modulus.digits z.norm_modulus_used z.digits_per_step
    (z.norm_modulus_used + 1) z.args x_digits 0
  let x_used ← normalize x_digits (max x_used room)
  let (x_digits, x_used) ← dr_shift_digits .result x_used i x_digits
  let x_digits ← z.subtract_modulus x_digits x_used
  return ({ z with args := args }, x_digits, ← normalize x_digits x_used)

/-- `result = x*R mod _modulus`, and the number of digits used. -/
def convert (x : BigIntImpl) (result_digits : Uint32List) : Checked (Uint32List × Nat) := do
  -- Montgomery reduction only works if abs(x) < _modulus.
  check ((← (← x.abs).compare_to z.modulus) < 0)
  check (z.digits_per_step = 1 ∨ z.norm_modulus_used % 2 = 0)
  let result ← (← (← x.abs).dl_shift z.norm_modulus_used).remainder p z.modulus
  let result ← complement z.modulus x result
  return (← copy_digits (result.used + (result.used &&& 1)) result.digits result_digits, result.used)
where
  complement (modulus x result : BigIntImpl) : Checked BigIntImpl :=
    if x.is_negative ∧ ¬result.is_negative ∧ 0 < result.used then modulus.sub result else .ok result

def revert (x_used : Nat) : Checked BigIntImpl := do
  -- Reserve enough digits for modulus squaring and accumulator carry.
  let result_digits := new_digits (2 * z.norm_modulus_used + 2)
  let result_digits ← copy_digits (x_used + (x_used &&& 1)) x_digits result_digits
  let (_, result_digits, result_used) ← z.reduce p result_digits x_used
  BigIntImpl.make false result_used result_digits

def sqr (x_used : Nat) (result_digits : Uint32List) : Checked (MontgomeryReduction × Uint32List × Nat) := do
  let (result_digits, result_used) ← sqr_digits p x_digits x_used result_digits
  z.reduce p result_digits result_used

def mul (x_used : Nat) (y_digits : Uint32List)
    (y_used : Nat) (result_digits : Uint32List) : Checked (MontgomeryReduction × Uint32List × Nat) := do
  let (result_digits, result_used) ← mul_digits p x_digits x_used y_digits y_used result_digits
  z.reduce p result_digits result_used

end MontgomeryReduction

section
variable {x y t y' : BitVec 64}

/-- A step of the iteration in 64-bit arithmetic, whatever is masked away above the bits that count. -/
lemma newton_word {j : Nat} (hj : j + j ≤ 64) (h : residue x * residue y ≡ 1 [ZMOD 2 ^ j])
    (ht : residue t ≡ residue x * residue y [ZMOD 2 ^ (j + j)])
    (hy' : residue y' ≡ residue (y * (2 - t)) [ZMOD 2 ^ (j + j)]) : residue x * residue y' ≡ 1 [ZMOD 2 ^ (j + j)] := by
  have hstep : residue y' ≡ residue y * (2 - residue x * residue y) [ZMOD 2 ^ (j + j)] := by
    refine hy'.trans ((residue_mul hj).trans (ModEq.mul_left _ ?_))
    exact (residue_sub hj).trans ((Int.ModEq.refl 2).sub ht)
  rw [pow_add] at hstep ⊢
  exact newton_modEq h hstep

lemma masked_product (k : Nat) (hk : k ≤ 64) :
    residue ((x &&& BitVec.ofNat 64 (2 ^ k - 1)) * y) ≡ residue x * residue y [ZMOD 2 ^ k] :=
  (residue_mul hk).trans ((residue_and_mask_modEq hk).mul_right _)

lemma inverse_half_digit_spec (hx : x.toNat % 2 = 1) :
    residue x * residue (inverse_half_digit x) ≡ 1 [ZMOD 2 ^ 16] := by
  have h2 : residue x * residue (x &&& 3) ≡ 1 [ZMOD 2 ^ 2] := by
    have hmask : residue (x &&& 3) = residue x % 2 ^ 2 := residue_and_mask (k := 2) (by decide)
    have hodd : residue x % 4 = 1 ∨ residue x % 4 = 3 := by
      rw [residue]
      omega
    rw [hmask, Int.ModEq, mul_emod, emod_emod_of_dvd _ (dvd_refl _)]
    rcases hodd with h | h <;> norm_num [h]
  have h4 := newton_word (by decide) h2 (masked_product 4 (by decide)) (residue_and_mask_modEq (by decide))
  have h8 := newton_word (by decide) h4 (masked_product 8 (by decide)) (residue_and_mask_modEq (by decide))
  exact newton_word (by decide) h8
    ((residue_and_mask_modEq (by decide)).trans (masked_product 16 (by decide))) (residue_and_mask_modEq (by decide))

variable (a : BitVec 64)

lemma residue_int_mod : residue (int_mod a digit_base) ≡ residue a [ZMOD 2 ^ 32] := by
  have hsigned : a.toInt ≡ residue a [ZMOD 2 ^ 32] := by
    refine modEq_of_two_pow ?_ (by decide)
    rw [toInt_eq_toNat_bmod]
    exact bmod_emod
  have hnn : 0 ≤ a.toInt % digit_base := emod_nonneg _ (by decide)
  have hlt : a.toInt % digit_base < 2 ^ 64 := (emod_lt_of_pos _ (by decide)).trans (by decide)
  rw [int_mod, residue, toNat_ofInt, toNat_of_nonneg (emod_nonneg _ (by decide)),
    emod_eq_of_lt hnn (by exact_mod_cast hlt)]
  exact (Int.mod_modEq _ _).trans hsigned

/-- The negative inverse, from what the iteration gives. -/
lemma negative_inverse {k : Nat} (hk : k ≤ 64) (h : residue x * residue y ≡ 1 [ZMOD 2 ^ k]) :
    x.toNat * (-y).toNat + 1 ≡ 0 [MOD 2 ^ k] := by
  rw [← natCast_modEq_iff]
  have hneg : residue x * residue (-y) ≡ residue x * -residue y [ZMOD 2 ^ k] := (residue_neg hk).mul_left _
  refine (hneg.add_right 1).trans ?_
  rw [mul_neg]
  exact (h.neg.add_right 1).trans rfl

lemma and_digit_mask : (a &&& 0xffffffff).toNat = a.toNat % digit_base :=
  (toNat_and ..).trans (and_two_pow_sub_one_eq_mod _ 32)

lemma toNat_ofNat_digit {d : Nat} (h : d < digit_base) : (BitVec.ofNat 64 d).toNat = d := by
  rw [toNat_ofNat, mod_eq_of_lt (h.trans (by decide))]

lemma inv_digit_spec {args : Uint32List} (hlen : args.length = 6) (hodd : args.digit 0 % 2 = 1) :
    ∃ args', inv_digit args = .ok args' ∧ args'.length = 6 ∧
      args.digit 0 * args'.digit rho_digit + 1 ≡ 0 [MOD digit_base] := by
  generalize hx : BitVec.ofNat 64 (args.digit 0) = x
  have hnat : x.toNat = args.digit 0 := by rw [← hx, toNat_ofNat_digit (args.digit_lt 0)]
  have h16 := inverse_half_digit_spec (x := x) (by omega)
  generalize hy : int_mod (inverse_half_digit x * (2 - int_mod (x * inverse_half_digit x) digit_base)) digit_base = y
  have h32 : residue x * residue y ≡ 1 [ZMOD 2 ^ 32] := by
    rw [← hy]
    exact newton_word (by decide) h16 ((residue_int_mod _).trans (residue_mul (by decide))) (residue_int_mod _)
  have hneg := negative_inverse (by decide) h32
  have hchk : (x * -y) &&& 0xffffffff = 0xffffffff := by
    refine eq_of_toNat_eq ?_
    rw [and_digit_mask, BitVec.toNat_mul, Nat.mod_mod_of_dvd _ (by decide)]
    have h0 : (x.toNat * (-y).toNat + 1) % 2 ^ 32 = 0 := hneg
    show x.toNat * (-y).toNat % 2 ^ 32 = 2 ^ 32 - 1
    omega
  obtain ⟨args', hwr, hlen', hdig'⟩ := write_eq (show rho_digit < args.length by rw [hlen]; decide)
    (mod_lt (-y).toNat (by decide))
  refine ⟨args', ?_, hlen'.trans hlen, ?_⟩
  · rw [inv_digit, Uint32List.read_eq (by rw [hlen]; decide), ok_bind, hx]
    simp only [hy, and_digit_mask, hwr, ok_bind, hchk, decide_true, check_true, pure_eq_ok]
  · rw [hdig', update_self, ← hnat]
    exact (((Nat.mod_modEq _ _).mul_left _).add_right 1).trans hneg

/-- The pair of digits as a machine integer. -/
lemma toNat_digit_pair {low high : Nat} (hlo : low < digit_base) (hhi : high < digit_base) :
    ((BitVec.ofNat 64 high <<< digit_bits) ||| BitVec.ofNat 64 low).toNat = low + high * digit_base := by
  rw [BitVec.toNat_or, BitVec.toNat_shiftLeft, toNat_ofNat_digit hlo, toNat_ofNat_digit hhi, Nat.shiftLeft_eq]
  have hlt : high * 2 ^ 32 < 2 ^ 64 := by
    exact Nat.mul_lt_mul_of_pos_right hhi (by norm_num)
  rw [Nat.mod_eq_of_lt hlt, Nat.mul_comm, ← Nat.two_pow_add_eq_or_of_lt hlo, Nat.add_comm, Nat.mul_comm]

/-- The two digits of a machine integer. -/
lemma digit_pair_toNat : (a &&& 0xffffffff).toNat +
    (a.sshiftRight digit_bits &&& 0xffffffff).toNat * digit_base = a.toNat := by
  have hsigned : a.toInt = a.toNat ∨ a.toInt = a.toNat - 2 ^ 64 := by
    rw [toInt_eq_toNat_cond]
    split <;> simp
  rw [and_digit_mask, and_digit_mask, sshiftRight, toNat_ofInt, Int.shiftRight_eq_div_pow]
  simp only [digit_base, digit_bits]
  omega

lemma inv_digit_pair_spec {args : Uint32List} (hlen : args.length = 6) (hodd : args.digit 0 % 2 = 1) :
    ∃ args', inv_digit_pair args = .ok args' ∧ args'.length = 6 ∧
      args.segment 0 2 * args'.segment rho_digit 2 + 1 ≡ 0 [MOD digit_base ^ 2] := by
  have hlo := args.digit_lt 0
  have hhi := args.digit_lt 1
  generalize hxl : BitVec.ofNat 64 (args.digit 0) = xl
  have hxlNat : xl.toNat = args.digit 0 := by rw [← hxl, toNat_ofNat_digit hlo]
  have h16 := inverse_half_digit_spec (x := xl) (by omega)
  generalize hy1 : (inverse_half_digit xl * (2 - ((xl * inverse_half_digit xl) &&& 0xffffffff))) &&& 0xffffffff = y1
  have h32 : residue xl * residue y1 ≡ 1 [ZMOD 2 ^ 32] := by
    rw [← hy1]
    exact newton_word (by decide) h16
      ((residue_and_mask_modEq (by decide)).trans (residue_mul (by decide))) (residue_and_mask_modEq (by decide))
  generalize hx : (BitVec.ofNat 64 (args.digit 1) <<< digit_bits) ||| xl = x
  have hnat : x.toNat = args.segment 0 2 := by
    rw [← hx, ← hxl, toNat_digit_pair hlo hhi, segment_two]
  have hmod : residue x ≡ residue xl [ZMOD 2 ^ 32] := by
    rw [residue, residue, hnat, hxlNat, segment_two]
    refine Int.modEq_iff_dvd.mpr ⟨-args.digit 1, ?_⟩
    push_cast
    ring
  have h64 : residue x * residue (y1 * (2 - x * y1)) ≡ 1 [ZMOD 2 ^ 64] :=
    newton_word le_rfl ((hmod.mul_right _).trans h32) (residue_mul le_rfl) (Int.ModEq.refl _)
  have hneg := negative_inverse le_rfl h64
  generalize hy : -(y1 * (2 - x * y1)) = y at hneg
  have hchk : x * y = -1 := by
    refine eq_of_toNat_eq ?_
    have h0 : (x.toNat * y.toNat + 1) % 2 ^ 64 = 0 := hneg
    rw [BitVec.toNat_mul]
    show x.toNat * y.toNat % 2 ^ 64 = 2 ^ 64 - 1
    omega
  obtain ⟨args1, hwr1, hlen1, hdig1⟩ := write_eq (v := (y &&& 0xffffffff).toNat)
    (show rho_digit < args.length by rw [hlen]; decide)
    (by rw [and_digit_mask]; exact mod_lt _ (by decide))
  obtain ⟨args2, hwr2, hlen2, hdig2⟩ := write_eq (v := (y.sshiftRight digit_bits &&& 0xffffffff).toNat)
    (show rho_high_digit < args1.length by rw [hlen1, hlen]; decide)
    (by rw [and_digit_mask]; exact mod_lt _ (by decide))
  refine ⟨args2, ?_, by omega, ?_⟩
  · rw [inv_digit_pair, Uint32List.read_eq (by rw [hlen]; decide), ok_bind, hxl,
      read_eq (by rw [hlen]; decide), ok_bind]
    simp only [hy1, hx, hy, hwr1, hwr2, ok_bind, hchk, decide_true, check_true, pure_eq_ok]
  · have hpair : args2.segment rho_digit 2 = y.toNat := by
      rw [segment_two, hdig2, hdig1, update_of_ne (by decide), update_self, update_self, digit_pair_toNat]
    rw [hpair, ← hnat]
    exact hneg

end

variable {p : Primitives} {i : Nat}

/-- The product of two digits without its upper half. -/
lemma half_digits_mul_mod (rho d : Nat) :
    ((d % 2 ^ 16) * (rho % 2 ^ 16) + ((d % 2 ^ 16) * (rho / 2 ^ 16) + d / 2 ^ 16 * (rho % 2 ^ 16)) % 2 ^ 16 * 2 ^ 16) %
      2 ^ 32 = rho * d % 2 ^ 32 := by
  have hprod : rho * d = rho / 2 ^ 16 * (d / 2 ^ 16) * 2 ^ 32 +
      ((d % 2 ^ 16) * (rho / 2 ^ 16) + d / 2 ^ 16 * (rho % 2 ^ 16)) * 2 ^ 16 + (d % 2 ^ 16) * (rho % 2 ^ 16) := by
    conv_lhs => rw [← div_add_mod rho (2 ^ 16), ← div_add_mod d (2 ^ 16)]
    ring
  omega

lemma mul_mod_spec {args digits : Uint32List} (hlen : args.length = 6) (hi : i + p.width ≤ digits.length) :
    ∃ args', mul_mod p args digits i = .ok (args', p.width) ∧ args'.length = 6 ∧ args'.segment mu_digit p.width =
    args.segment rho_digit p.width * digits.segment i p.width % digit_base ^ p.width ∧ args'.segment rho_digit p.width =
    args.segment rho_digit p.width := by
  have hmod : args.segment rho_digit p.width * digits.segment i p.width % digit_base ^ p.width <
      digit_base ^ p.width := Nat.mod_lt _ (by positivity)
  have hroom : mu_digit + p.width ≤ args.length := by
    rw [hlen]
    cases p <;> decide
  have hbelow : rho_digit + p.width ≤ mu_digit := by cases p <;> decide
  obtain ⟨args', hwr, hlen', hmu, hframe⟩ := Primitives.write_segment hroom hmod
  refine ⟨args', ?_, hlen'.trans hlen, hmu, positional.value_congr fun k hk => hframe _ (.inl (by omega))⟩
  cases p with
  | pure_dart =>
    simp only [Primitives.width, pow_one, Uint32List.segment_one, Primitives.write] at *
    have hrho : args.read rho_digit = .ok (args.digit rho_digit) := Uint32List.read_eq (by omega)
    have hd : digits.read i = .ok (digits.digit i) := Uint32List.read_eq (by omega)
    have hmask (v : Nat) : v &&& half_digit_mask = v % 2 ^ 16 := Nat.and_two_pow_sub_one_eq_mod v 16
    have hmask' (v : Nat) : v &&& digit_mask = v % 2 ^ 32 := Nat.and_two_pow_sub_one_eq_mod v 32
    simp only [mul_mod, hrho, hd, ok_bind, hmask, hmask', Nat.shiftRight_eq_div_pow, Nat.shiftLeft_eq, half_digit_bits,
      half_digits_mul_mod, hwr, pure_eq_ok]
  | intrinsics =>
    rw [mul_mod, Primitives.read_eq (by omega), ok_bind, Primitives.read_eq hi, ok_bind, Primitives.low_eq, hwr,
      ok_bind, pure_eq_ok]
    rfl

/-- What holds of the arguments of a reduction. -/
structure MontgomeryReduction.Sound (p : Primitives) (z : MontgomeryReduction) : Prop where
  valid : z.modulus.Valid
  nonnegative : z.modulus.is_negative = false
  odd : z.modulus.magnitude % 2 = 1
  norm_used : z.norm_modulus_used = p.width * p.steps z.modulus.used
  step_width : z.digits_per_step = p.width
  args_length : z.args.length = 6
  inverse : z.modulus.digits.segment 0 p.width * z.args.segment rho_digit p.width + 1 ≡ 0 [MOD digit_base ^ p.width]

lemma Primitives.width_mul_steps_words (p : Primitives) (n : Nat) :
    p.width * p.steps (p.width * p.steps n) = p.width * p.steps n := by
  cases p with
  | pure_dart => simp [width, steps]
  | intrinsics =>
    simp only [width, steps]
    omega

/-- Zeros are stored in the places from `u` to `l - 1`. -/
lemma pad_digits_spec {x : Uint32List} {u l : Nat} (hu : u ≤ l) (hl : l ≤ x.length) :
    ∃ x', (List.range' u (l - u)).foldlM (fun (digits : Uint32List) i => digits.write i 0) x = Except.ok x' ∧
      x'.length = x.length ∧ x'.value l = x.value u := by
  have hmem (k : Nat) : k ∈ List.range' u (l - u) ↔ u ≤ k ∧ k < l := by
    rw [List.mem_range'_1]
    omega
  obtain ⟨x', hx', hlen, h0, hframe⟩ := write_zeros_spec fun i hi => ((hmem i).mp hi).2.trans_le hl
  refine ⟨x', hx', hlen, ?_⟩
  rw [show x'.value l = x'.value u from value_eq_of_zero hu fun k huk hkl => h0 k ((hmem k).mpr ⟨huk, hkl⟩)]
  exact value_congr fun k hk => hframe k fun hin => absurd ((hmem k).mp hin).1 (by omega)

namespace MontgomeryReduction
variable {z : MontgomeryReduction} {x : Uint32List}

section
variable (h : z.Sound p)
include h

lemma Sound.used_pos : 0 < z.modulus.used := by
  have hodd := h.odd
  refine pos_of_ne_zero fun h0 => ?_
  rw [h.valid.magnitude_eq_zero_iff.mpr h0] at hodd
  omega

lemma Sound.used_le : z.modulus.used ≤ z.norm_modulus_used := by
  rw [h.norm_used]
  exact p.le_width_mul_steps _

lemma Sound.norm_used_le : z.norm_modulus_used ≤ z.modulus.digits.length := by
  rw [h.norm_used]
  exact Primitives.words_le h.valid.toPadded

lemma Sound.value_norm : z.modulus.digits.value z.norm_modulus_used = z.modulus.magnitude := by
  rw [h.norm_used]
  exact Primitives.value_words h.valid.toPadded (p.le_width_mul_steps _) le_rfl

lemma Sound.magnitude_lt : z.modulus.magnitude < digit_base ^ z.norm_modulus_used := by
  rw [← h.value_norm]
  exact z.modulus.digits.value_lt _

lemma Sound.width_dvd : p.width ∣ z.norm_modulus_used := by
  rw [h.norm_used]
  exact dvd_mul_right _ _

lemma Sound.coprime : Nat.Coprime (digit_base ^ z.norm_modulus_used) z.modulus.magnitude := by
  rw [← pow_mul]
  exact Coprime.pow_left _ ((coprime_two_left).mpr (odd_iff.mpr h.odd))

/-- The negative inverse of the modulus. -/
lemma Sound.inverse_magnitude :
    z.args.segment rho_digit p.width * z.modulus.magnitude + 1 ≡ 0 [MOD digit_base ^ p.width] := by
  have hle : p.width ≤ z.norm_modulus_used := le_of_dvd (h.used_pos.trans_le h.used_le) h.width_dvd
  have hmod : z.modulus.magnitude ≡ z.modulus.digits.segment 0 p.width [MOD digit_base ^ p.width] := by
    rw [← h.value_norm, segment_zero_left, value_eq_add_segment hle]
    exact add_mul_mod_self_left ..
  rw [mul_comm]
  exact ((hmod.mul_right _).add_right 1).trans h.inverse

/-- What the loop has added: multiples of the modulus that clear the digits below place `i`. -/
structure Clearing (z : MontgomeryReduction) (X i : Nat) (x_digits : Uint32List) : Prop where
  sum : ∃ k, k < digit_base ^ i ∧
    x_digits.value (2 * z.norm_modulus_used + 2) = X + k * z.modulus.magnitude
  cleared : digit_base ^ i ∣ x_digits.value (2 * z.norm_modulus_used + 2)

lemma Sound.with_args {args : Uint32List} (hlen : args.length = 6)
    (hrho : args.segment rho_digit p.width = z.args.segment rho_digit p.width) : { z with args := args }.Sound p :=
  ⟨h.valid, h.nonnegative, h.odd, h.norm_used, h.step_width, hlen, by rw [hrho]; exact h.inverse⟩

end

/-- One iteration of the loop clears the next digits. -/
lemma reduce_step_spec {X i : Nat} (hz : z.Sound p)
    (hX : X < digit_base ^ z.norm_modulus_used * z.modulus.magnitude) (heven : x.length % 2 = 0)
    (hroom : 2 * z.norm_modulus_used + 2 ≤ x.length) (hdvd : p.width ∣ i) (hi : i < z.norm_modulus_used)
    (h : z.Clearing X i x) : ∃ args x', mul_mod p z.args x i = .ok (args, p.width) ∧ { z with args := args }.Sound p ∧
      mul_add p args mu_digit z.modulus.digits 0 x i z.norm_modulus_used = .ok (x', p.width) ∧
      x'.length = x.length ∧ z.Clearing X (i + p.width) x' := by
  have hnext : i + p.width ≤ z.norm_modulus_used := by
    rw [hz.norm_used] at hi ⊢
    exact p.next_word_le hdvd hi
  have hwords : p.width * p.steps z.norm_modulus_used = z.norm_modulus_used := by
    rw [hz.norm_used, p.width_mul_steps_words]
  obtain ⟨⟨k, hk, hsum⟩, hclr⟩ := h
  have hlt := hz.magnitude_lt
  have hmod := hz.norm_used_le
  have hinverse := hz.inverse_magnitude
  have hvalueNorm := hz.value_norm
  generalize hn : z.norm_modulus_used = n at *
  generalize hM : z.modulus.magnitude = M at *
  obtain ⟨args, hmul, hlen, hmu, hrho⟩ := mul_mod_spec hz.args_length (show i + p.width ≤ x.length by omega)
  rw [segment_eq_value (show i + p.width ≤ 2 * n + 2 by omega)] at hmu
  generalize hmuValue : args.segment mu_digit p.width = mu at *
  have hmuLt : mu < digit_base ^ p.width := by
    rw [hmu]
    exact mod_lt _ (by positivity)
  have hk' : k + mu * digit_base ^ i < digit_base ^ (i + p.width) := by
    have hle := mul_le_mul_right (digit_base ^ i) (succ_le_of_lt hmuLt)
    rw [pow_add, mul_comm (digit_base ^ i)]
    rw [Nat.succ_mul] at hle
    omega
  have hsum' : x.value (2 * n + 2) + mu * M * digit_base ^ i = X + (k + mu * digit_base ^ i) * M := by
    rw [hsum]
    ring
  have hfits : x.value (2 * n + 2) + mu * M * digit_base ^ i < digit_base ^ (2 * n + 2) := by
    have hmultiple : (k + mu * digit_base ^ i) * M ≤ digit_base ^ n * M :=
      Nat.mul_le_mul_right M (hk'.le.trans (Nat.pow_le_pow_right (by decide) hnext))
    have hsquare : digit_base ^ n * M ≤ digit_base ^ n * digit_base ^ n := mul_le_mul_left _ hlt.le
    have hpow : digit_base ^ (2 * n + 2) = digit_base ^ n * digit_base ^ n * digit_base ^ 2 := by
      rw [← pow_add, ← pow_add]
      congr 1
      omega
    have htwo : digit_base ^ n * digit_base ^ n * 2 ≤ digit_base ^ n * digit_base ^ n * digit_base ^ 2 :=
      mul_le_mul_left _ (by decide)
    omega
  have hfactor : z.modulus.digits.segment 0 (p.width * p.steps n) = M := by
    rw [hwords, segment_zero_left, hvalueNorm]
  have hpos : mu_digit + p.width ≤ args.length := by
    rw [hlen]
    cases p <;> decide
  obtain ⟨x', hadd, hlen', hval⟩ := mul_add_value_spec p hpos
    (show 0 + p.width * p.steps n ≤ z.modulus.digits.length by omega) (by omega)
    (dvd_sub (p.width_dvd heven) hdvd) hroom (by rw [hfactor, hmuValue]; exact hfits)
  rw [hfactor, hmuValue] at hval
  refine ⟨args, x', hmul, hn ▸ hz.with_args hlen hrho, hadd, hlen', ⟨k + mu * digit_base ^ i, hk', ?_⟩, ?_⟩
  · rw [hn, hval, hsum', hM]
  · have hstep := dvd_step hinverse hclr
    rw [hn, hval, hmu, pow_add]
    exact hstep

lemma reduce_loop_spec {X : Nat} (hz : z.Sound p) (hX : X < digit_base ^ z.norm_modulus_used * z.modulus.magnitude)
    (fuel : Nat) {args x : Uint32List} (hargs : { z with args := args }.Sound p) (heven : x.length % 2 = 0)
    (hroom : 2 * z.norm_modulus_used + 2 ≤ x.length) (hdvd : p.width ∣ i) (hi : i ≤ z.norm_modulus_used)
    (hfuel : z.norm_modulus_used - i < fuel) (h : z.Clearing X i x) :
    ∃ args' x', reduce_loop p z.modulus.digits z.norm_modulus_used z.digits_per_step fuel args x i =
        .ok (args', x', z.norm_modulus_used) ∧ { z with args := args' }.Sound p ∧ x'.length = x.length ∧
      z.Clearing X z.norm_modulus_used x' := by
  induction fuel generalizing args x i with
  | zero => exact absurd hfuel (not_lt_zero _)
  | succ fuel ih =>
    by_cases hlt : i < z.norm_modulus_used
    · obtain ⟨args1, x1, hmul, hsound, hadd, hlen, h1⟩ := reduce_step_spec hargs hX heven hroom hdvd hlt ⟨h.1, h.2⟩
      have hnext : i + p.width ≤ z.norm_modulus_used := by
        rw [hz.norm_used] at hlt ⊢
        exact p.next_word_le hdvd hlt
      have hpos := p.width_pos
      obtain ⟨args2, x2, hrest, hsound2, hlen2, h2⟩ := ih hsound (hlen ▸ heven) (hlen ▸ hroom)
        (dvd_add hdvd (dvd_refl _)) hnext (by omega) ⟨h1.1, h1.2⟩
      refine ⟨args2, x2, ?_, hsound2, hlen2.trans hlen, h2⟩
      have hchk : check (decide (p.width = z.digits_per_step)) = .ok () := by
        rw [decide_eq_true hz.step_width.symm, check_true]
      rw [reduce_loop, if_pos hlt, hmul, ok_bind]
      simp only [hchk, ok_bind, hadd]
      exact hrest
    · obtain rfl : i = z.norm_modulus_used := by omega
      exact ⟨args, x, by rw [reduce_loop, if_neg hlt], hargs, rfl, h⟩

/-- What a reduced number stays below: the modulus, or all numbers that have fewer digits than the
padded modulus. -/
def limit (z : MontgomeryReduction) : Nat := max z.modulus.magnitude (digit_base ^ (z.norm_modulus_used - 1))

/-- The modulus is subtracted when the number of digits and the digits say so. -/
lemma subtract_modulus_spec (hz : z.Sound p) {v : Nat} (hx : v ≤ x.length)
    (htop : v ≠ 0 → digit_base ^ (v - 1) ≤ x.value v) :
    ∃ x', z.subtract_modulus x v = .ok x' ∧ x'.length = x.length ∧ (∀ k, v ≤ k → x'.digit k = x.digit k) ∧
      x'.value v = if z.limit ≤ x.value v then x.value v - z.modulus.magnitude else x.value v := by
  have hmod := hz.norm_used_le
  have hnpos := hz.used_pos.trans_le hz.used_le
  have hvalueNorm := hz.value_norm
  have hlt := hz.magnitude_lt
  rw [limit, subtract_modulus]
  generalize z.norm_modulus_used = n at *
  by_cases hshort : v < n
  · -- With fewer digits the number counts as smaller, whatever its value.
    have hbelow : x.value v < digit_base ^ (n - 1) :=
      (x.value_lt v).trans_le (Nat.pow_le_pow_right (by decide) (by omega))
    refine ⟨x, ?_, rfl, fun _ _ => rfl, by rw [if_neg (by omega)]⟩
    have hcmp : compare_digits x v z.modulus.digits n = .ok ((v : Int) - n) := by
      rw [compare_digits]
      exact if_neg (by omega)
    rw [hcmp, ok_bind, if_neg (by omega), pure_eq_ok]
  have hge : digit_base ^ (n - 1) ≤ x.value v :=
    (Nat.pow_le_pow_right (by decide) (by omega)).trans (htop (by omega))
  obtain ⟨c, hc, hsign⟩ := compare_digits_spec hx hmod (fun h => absurd h hshort) fun hlong => by
    rw [hvalueNorm]
    exact hlt.trans_le ((Nat.pow_le_pow_right (by decide) (by omega)).trans (htop (by omega)))
  rw [hvalueNorm] at hsign
  by_cases hle : z.modulus.magnitude ≤ x.value v
  · have hnn : 0 ≤ c := (nonneg_iff_of_sign_eq hsign).mpr (by omega)
    obtain ⟨x', hsub, hlen, hframe, hdiff⟩ := abs_sub_spec (show Operand.contents .result x = x from rfl)
      (Nat.le_of_not_lt hshort) hnpos hx hmod hx (by rwa [hvalueNorm])
    refine ⟨x', by rw [hc, ok_bind, if_pos hnn, hsub], hlen, hframe, ?_⟩
    rw [if_pos (by omega)]
    omega
  · have hneg : ¬0 ≤ c := mt (nonneg_iff_of_sign_eq hsign).mp (by omega)
    exact ⟨x, by rw [hc, ok_bind, if_neg hneg, pure_eq_ok], rfl, fun _ _ => rfl, by rw [if_neg (by omega)]⟩

/-- The result of a reduction: its digits, without leading zeros, for the number `t` that is left of
`X` or that number less the modulus. -/
structure Reduced (z : MontgomeryReduction) (X : Nat) (digits : Uint32List) (used : Nat) : Prop
    extends Padded digits used where
  top_digit : used ≠ 0 → digits.digit (used - 1) ≠ 0
  value_eq : ∃ k t, Reduces (digit_base ^ z.norm_modulus_used) z.modulus.magnitude X k t ∧
    digits.value used = if z.limit ≤ t then t - z.modulus.magnitude else t

lemma reduce_spec (hz : z.Sound p) {u : Nat} (heven : x.length % 2 = 0)
    (hu : u ≤ 2 * z.norm_modulus_used + 2) (hroom : 2 * z.norm_modulus_used + 2 ≤ x.length)
    (hX : x.value u < digit_base ^ z.norm_modulus_used * z.modulus.magnitude) :
    ∃ args x' u', z.reduce p x u = .ok ({ z with args := args }, x', u') ∧ { z with args := args }.Sound p ∧
      x'.length = x.length ∧ z.Reduced (x.value u) x' u' := by
  obtain ⟨x1, hpad, hlen1, hval1⟩ := pad_digits_spec hu hroom
  have hclear : z.Clearing (x.value u) 0 x1 := ⟨⟨0, by simp, by rw [hval1]; omega⟩, by simp⟩
  obtain ⟨args, x2, hloop, hsound, hlen2, ⟨k, hk, hsum⟩, t, ht⟩ := reduce_loop_spec hz hX (z.norm_modulus_used + 1) hz
    (by omega) (by omega) (dvd_zero _) (zero_le _) (by omega) hclear
  have hreduces : Reduces (digit_base ^ z.norm_modulus_used) z.modulus.magnitude (x.value u) k t := ⟨by omega, hk⟩
  obtain ⟨v, hv, hvle, hvtop, hvzero⟩ := normalize_spec (show 2 * z.norm_modulus_used + 2 ≤ x2.length by omega)
  have hval2 : x2.value v = digit_base ^ z.norm_modulus_used * t := by
    rw [← ht]
    exact (value_eq_of_zero hvle hvzero).symm
  obtain ⟨x3, hshift, hlen3, hval3, hlead3⟩ := dr_shift_digits_spec
    (show Operand.contents .result x2 = x2 from rfl) (show v ≤ x2.length by omega) (by omega)
  rw [hval2, Nat.mul_div_cancel_left _ (by positivity)] at hval3
  have htop3 : v - z.norm_modulus_used ≠ 0 →
      digit_base ^ (v - z.norm_modulus_used - 1) ≤ x3.value (v - z.norm_modulus_used) := fun hne => by
    have hle : digit_base ^ (v - 1) ≤ x2.value v := pow_le_value (by omega) (hvtop (by omega))
    rw [hval3]
    rw [hval2, show v - 1 = z.norm_modulus_used + (v - z.norm_modulus_used - 1) by omega, pow_add] at hle
    exact le_of_mul_le_mul_left hle (by positivity)
  obtain ⟨x4, hsub, hlen4, hframe4, hval4⟩ := subtract_modulus_spec hz (by omega) htop3
  obtain ⟨u', hu', hule, hutop, huzero⟩ := normalize_spec (show v - z.norm_modulus_used ≤ x4.length by omega)
  have hlead : u' % 2 = 1 → x4.digit u' = 0 := fun hodd => by
    by_cases hlast : u' = v - z.norm_modulus_used
    · rw [hlast] at hodd ⊢
      rw [hframe4 _ le_rfl]
      exact hlead3 hodd
    · exact huzero u' le_rfl (by omega)
  refine ⟨args, x4, u', ?_, hsound, by omega, ⟨by omega, by omega, hlead⟩, hutop, k, t, hreduces, ?_⟩
  · simp [reduce, hpad, hloop, max_eq_right hu, hv, hshift, hsub, hu']
  · rw [hval3] at hval4
    rw [← hval4]
    exact (value_eq_of_zero hule huzero).symm

end MontgomeryReduction
end dart.bigint
