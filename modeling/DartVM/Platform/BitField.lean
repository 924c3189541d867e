import DartVM.Fault
import Mathlib.Algebra.Group.Nat.Defs

namespace dart
open Nat BitVec

/-- The bits of a word that hold a value. -/
structure BitField (w : Nat) where
  position : Nat
  size : Nat
  position_add_size_le : position + size ≤ w
  size_lt : size < w

namespace BitField
variable {w : Nat} (field : BitField w)

def mask : BitVec w := (1#w <<< field.size) - 1#w

def mask_in_place : BitVec w := field.mask <<< field.position

section
variable (value : Nat)

def encode_unchecked : BitVec w := (BitVec.ofNat w value &&& field.mask) <<< field.position

def decode (x : BitVec w) : Nat := ((x >>> field.position) &&& field.mask).toNat

def is_valid : Bool := field.decode (field.encode_unchecked value) == value

def encode : Checked (BitVec w) := do
  check (field.is_valid value)
  return field.encode_unchecked value

def update (original : BitVec w) : Checked (BitVec w) := do
  return (← field.encode value) ||| (~~~field.mask_in_place &&& original)

end

/-- No bit belongs to both fields. -/
def Apart (field other : BitField w) : Prop :=
  field.position + field.size ≤ other.position ∨ other.position + other.size ≤ field.position

lemma getLsbD_mask (i : Nat) : field.mask.getLsbD i = decide (i < field.size) := by
  have hw := field.size_lt
  have hpow : 2 ^ field.size < 2 ^ w := Nat.pow_lt_pow_right (by omega) hw
  have hpos := Nat.two_pow_pos field.size
  have hmask : field.mask.toNat = 2 ^ field.size - 1 := by
    have hone : 1 % 2 ^ w = 1 := mod_eq_of_lt (Nat.one_lt_two_pow (by omega))
    unfold mask
    rw [toNat_sub_of_le]
    · rw [toNat_shiftLeft, toNat_ofNat, hone, one_shiftLeft, mod_eq_of_lt hpow]
    · rw [le_def, toNat_shiftLeft, toNat_ofNat, hone, one_shiftLeft, mod_eq_of_lt hpow]
      exact hpos
  rw [getLsbD, hmask, testBit_two_pow_sub_one]

lemma testBit_decode (x : BitVec w) (i : Nat) :
    (field.decode x).testBit i = (decide (i < field.size) && x.getLsbD (field.position + i)) := by
  rw [decode, testBit_toNat, getLsbD_and, getLsbD_ushiftRight, getLsbD_mask, Bool.and_comm]

lemma getLsbD_encode_unchecked (value i : Nat) : (field.encode_unchecked value).getLsbD i =
    (decide (field.position ≤ i) && decide (i < field.position + field.size) && value.testBit (i - field.position)) := by
  have hle := field.position_add_size_le
  rw [encode_unchecked, getLsbD_shiftLeft, getLsbD_and, getLsbD_ofNat, getLsbD_mask]
  grind

lemma getLsbD_mask_in_place (i : Nat) : field.mask_in_place.getLsbD i =
    (decide (field.position ≤ i) && decide (i < field.position + field.size)) := by
  have hle := field.position_add_size_le
  rw [mask_in_place, getLsbD_shiftLeft, getLsbD_mask]
  grind

variable {field} {value : Nat}

lemma is_valid_of_lt (h : value < 2 ^ field.size) : field.is_valid value = true := by
  rw [is_valid, beq_iff_eq]
  refine eq_of_testBit_eq fun i => ?_
  rw [testBit_decode, getLsbD_encode_unchecked]
  by_cases hi : i < field.size
  · simp [hi]
  have hhi : value.testBit i = false :=
    testBit_lt_two_pow (Nat.lt_of_lt_of_le h (Nat.pow_le_pow_right (by omega) (by omega)))
  simp [hhi]

/-- An update sets its own field and no other. -/
lemma update_spec (h : value < 2 ^ field.size) (original : BitVec w) : ∃ x, field.update value original = .ok x ∧
    field.decode x = value ∧ ∀ other : BitField w, field.Apart other → other.decode x = other.decode original := by
  have hok : field.update value original =
      .ok (field.encode_unchecked value ||| (~~~field.mask_in_place &&& original)) := by
    simp [update, encode, is_valid_of_lt h]
  have hbit (i : Nat) : (field.encode_unchecked value ||| (~~~field.mask_in_place &&& original)).getLsbD i =
      if field.position ≤ i ∧ i < field.position + field.size then value.testBit (i - field.position)
      else original.getLsbD i := by
    rw [getLsbD_or, getLsbD_and, getLsbD_not, getLsbD_encode_unchecked, getLsbD_mask_in_place]
    grind
  refine ⟨_, hok, ?_, ?_⟩
  · have hv := is_valid_of_lt h
    rw [is_valid, beq_iff_eq] at hv
    rw [← hv]
    refine eq_of_testBit_eq fun i => ?_
    rw [testBit_decode, testBit_decode, hv, hbit, getLsbD_encode_unchecked]
    grind
  · intro other hapart
    refine eq_of_testBit_eq fun i => ?_
    rw [testBit_decode, testBit_decode, hbit]
    unfold Apart at hapart
    by_cases hi : i < other.size
    · rw [if_neg (by omega)]
    · simp [hi]

end BitField
end dart
