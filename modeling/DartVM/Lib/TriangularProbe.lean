import Mathlib.Data.Fintype.EquivFin
import Mathlib.Data.Nat.ModEq
import Mathlib.Data.Nat.Prime.Basic
import Mathlib.Tactic.Ring
import Mathlib.Tactic.Linarith

namespace dart.triangular_probe
open Nat

/-- The `j`-th slot visited when the distance between probes grows by one each time. -/
def probe (size start j : Nat) : Nat := (start + j * (j + 1) / 2) % size

lemma probe_lt {size : Nat} (hsize : 0 < size) (start j : Nat) : probe size start j < size := mod_lt _ hsize

@[simp] lemma probe_zero (size start : Nat) : probe size start 0 = start % size := by simp [probe]

lemma probe_succ (size start j : Nat) : probe size start (j + 1) = (probe size start j + (j + 1)) % size := by
  have htriangle : (j + 1) * (j + 1 + 1) / 2 = j * (j + 1) / 2 + (j + 1) := by
    rw [show (j + 1) * (j + 1 + 1) = j * (j + 1) + 2 * (j + 1) by ring, add_mul_div_left _ _ (by omega)]
  rw [probe, probe, htriangle, mod_add_mod, add_assoc]

private lemma two_mul_triangle (j : Nat) : 2 * (j * (j + 1) / 2) = j * (j + 1) :=
  Nat.mul_div_cancel' (Nat.even_mul_succ_self j).two_dvd

/-- Two probes less than `2 ^ m` steps apart do not meet in a table of that size: one
of the factors of the distance is odd, and the other one is too small. -/
lemma probe_injective (m start : Nat) {i j : Nat} (hij : i < j) (hj : j < 2 ^ m) :
    probe (2 ^ m) start i ≠ probe (2 ^ m) start j := by
  intro heq
  have hmod : 2 ^ m ∣ j * (j + 1) / 2 - i * (i + 1) / 2 := by
    have hle : i * (i + 1) / 2 ≤ j * (j + 1) / 2 := by gcongr
    rw [← modEq_iff_dvd' hle]
    exact ModEq.add_left_cancel' start heq
  have hfactor : 2 * (j * (j + 1) / 2 - i * (i + 1) / 2) = (j - i) * (i + j + 1) := by
    rw [Nat.mul_sub, two_mul_triangle, two_mul_triangle]
    obtain ⟨d, rfl⟩ := Nat.exists_eq_add_of_lt hij
    rw [show i + d + 1 - i = d + 1 by omega]
    apply Nat.sub_eq_of_eq_add
    ring
  have hdvd : 2 ^ (m + 1) ∣ (j - i) * (i + j + 1) := by
    rw [← hfactor, pow_succ, mul_comm (2 ^ m)]
    exact mul_dvd_mul_left 2 hmod
  rcases even_or_odd (j - i) with heven | hodd
  · have hodd : Odd (i + j + 1) := by
      rw [show i + j + 1 = j - i + (2 * i + 1) by omega]
      exact heven.add_odd (odd_two_mul_add_one i)
    have hle := le_of_dvd (by omega) ((Coprime.pow_left (m + 1) (coprime_two_left.mpr hodd)).dvd_of_dvd_mul_right hdvd)
    rw [pow_succ] at hle
    omega
  · have hle := le_of_dvd (by omega)
      ((Coprime.pow_left (m + 1) (coprime_two_left.mpr hodd)).dvd_of_dvd_mul_left hdvd)
    rw [pow_succ] at hle
    omega

/-- Triangular probing visits every slot of a table whose size is a power of two. -/
lemma exists_probe_eq (m start : Nat) {slot : Nat} (hslot : slot < 2 ^ m) :
    ∃ j < 2 ^ m, probe (2 ^ m) start j = slot := by
  have hpos : 0 < 2 ^ m := Nat.two_pow_pos m
  let visit : Fin (2 ^ m) → Fin (2 ^ m) := fun j => ⟨probe (2 ^ m) start j, probe_lt hpos start j⟩
  have hinjective : Function.Injective visit := by
    intro i j heq
    have hprobe : probe (2 ^ m) start i = probe (2 ^ m) start j := congrArg Fin.val heq
    rcases Nat.lt_trichotomy i j with hlt | hsame | hgt
    · exact absurd hprobe (probe_injective m start hlt j.isLt)
    · exact Fin.ext hsame
    · exact absurd hprobe.symm (probe_injective m start hgt i.isLt)
  obtain ⟨j, hj⟩ := Finite.surjective_of_injective hinjective ⟨slot, hslot⟩
  exact ⟨j, j.isLt, congrArg Fin.val hj⟩

end dart.triangular_probe
