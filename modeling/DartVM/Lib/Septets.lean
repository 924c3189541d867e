import Mathlib.Data.Int.Bitwise
import Mathlib.Tactic.Ring
import Mathlib.Tactic.Linarith

namespace dart.septets
open BitVec

section
variable {w : Nat} {low : BitVec w} {s : Nat}

/-- The word whose low `s` bits are `low` and whose remaining bits hold `v`,
cut to the width of the word. -/
def place (low : BitVec w) (s : Nat) (v : Int) : BitVec w :=
  low + BitVec.ofInt w (v * 2 ^ s)

@[simp] lemma place_zero (v : Int) : place (0 : BitVec w) 0 v = BitVec.ofInt w v := by
  simp [place]

/-- Placing the next `k` bits of a value and then the bits above them places the
value. -/
lemma place_place (low : BitVec w) (s k : Nat) (v : Int) :
    place (place low s (v % 2 ^ k)) (s + k) (v / 2 ^ k) = place low s v := by
  have hsplit : v % 2 ^ k * 2 ^ s + v / 2 ^ k * 2 ^ (s + k) = v * 2 ^ s := by
    conv_rhs => rw [← Int.emod_add_mul_ediv v (2 ^ k)]
    ring
  rw [place, place, place, BitVec.add_assoc, ← ofInt_add, hsplit]

lemma ofInt_shiftLeft (v : Int) (s : Nat) : BitVec.ofInt w v <<< s = BitVec.ofInt w (v * 2 ^ s) := by
  have hpow : twoPow w s = BitVec.ofInt w ((2 ^ s : Nat) : Int) := by
    rw [ofInt_natCast]
    apply eq_of_toNat_eq
    rw [toNat_twoPow, toNat_ofNat]
  rw [shiftLeft_eq_mul_twoPow, ofInt_mul, hpow]
  rfl

/-- Bits below position `s` and a word shifted there do not overlap. -/
lemma or_shiftLeft_eq_add (hlo : low.toNat < 2 ^ s) (high : BitVec w) : low ||| (high <<< s) = low + (high <<< s) := by
  symm
  apply add_eq_or_of_and_eq_zero
  ext i hi
  simp only [getElem_and, getElem_shiftLeft, getElem_zero]
  by_cases his : i < s
  · simp [his]
  have hbit : low.toNat.testBit i = false :=
    Nat.testBit_lt_two_pow (lt_of_lt_of_le hlo (Nat.pow_le_pow_right (by omega) (by omega)))
  simp [hbit, getElem_eq_testBit_toNat]

lemma or_shiftLeft (hlo : low.toNat < 2 ^ s) (v : Int) : low ||| (BitVec.ofInt w v <<< s) = place low s v := by
  rw [or_shiftLeft_eq_add hlo, ofInt_shiftLeft, place]

lemma toNat_place_lt {s k : Nat} (hlo : low.toNat < 2 ^ s) {v : Int}
    (hv : 0 ≤ v) (hvk : v < 2 ^ k) : (place low s v).toNat < 2 ^ (s + k) := by
  obtain ⟨n, rfl⟩ := Int.eq_ofNat_of_zero_le hv
  have hn : n < 2 ^ k := by exact_mod_cast hvk
  have hplace : place low s n = low + BitVec.ofNat w (n * 2 ^ s) := by
    rw [place, ← ofInt_natCast]
    rfl
  have hle : (place low s n).toNat ≤ low.toNat + n * 2 ^ s := by
    rw [hplace, toNat_add, toNat_ofNat]
    exact (Nat.mod_le _ _).trans (Nat.add_le_add_left (Nat.mod_le _ _) _)
  calc (place low s n).toNat ≤ low.toNat + n * 2 ^ s := hle
    _ < 2 ^ s + n * 2 ^ s := by omega
    _ = (n + 1) * 2 ^ s := by ring
    _ ≤ 2 ^ k * 2 ^ s := Nat.mul_le_mul_right _ hn
    _ = 2 ^ (s + k) := by ring

/-- The mask of all bits from position `s` on. -/
lemma not_two_pow_sub_one (s : Nat) : ~~~(((1 : BitVec w) <<< s) - 1) = BitVec.ofInt w (-1) <<< s := by
  rw [show (1 : BitVec w) = 1#w from rfl, ← BitVec.not_neg, BitVec.not_not, ← BitVec.shiftLeft_neg, BitVec.ofInt_neg]
  simp

end

/-- `bytes` spells `v` in groups of seven bits, least significant first: every
group but the last is marked as `IsMore` asks, the last one as `IsLast` does. -/
inductive Spells (IsLast IsMore : Int → BitVec 8 → Prop) : Int → List (BitVec 8) → Prop where
  | last {v : Int} {b : BitVec 8} : IsLast v b → Spells IsLast IsMore v [b]
  | more {v : Int} {b : BitVec 8} {bytes : List (BitVec 8)} :
      IsMore v b → Spells IsLast IsMore (v / 128) bytes → Spells IsLast IsMore v (b :: bytes)

/-- If a group is followed by another one only when the value does not fit in
seven signed bits, then `k + 1` groups are enough for `7 * k + 7` signed bits. -/
lemma Spells.length_le {IsLast IsMore : Int → BitVec 8 → Prop}
    (hmore : ∀ v b, IsMore v b → ¬(-64 ≤ v ∧ v < 64)) {v : Int} {bytes : List (BitVec 8)}
    (h : Spells IsLast IsMore v bytes) : ∀ k : Nat, -(64 * 128 ^ k) ≤ v → v < 64 * 128 ^ k → bytes.length ≤ k + 1 := by
  induction h with
  | last => simp
  | @more v b bytes hb _ ih =>
    intro k hlo hhi
    cases k with
    | zero => exact absurd (by simpa using ⟨hlo, hhi⟩) (hmore v b hb)
    | succ k =>
      rw [pow_succ] at hlo hhi
      have hlen := ih k (by omega) (by omega)
      simpa using hlen

end dart.septets
