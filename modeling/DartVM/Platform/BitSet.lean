import Mathlib.Data.List.Induction
import DartVM.Fault

namespace dart
open Nat List

inductive WordSize where
  | bits32
  | bits64
deriving DecidableEq

namespace WordSize

def kWordSizeLog2 : WordSize → Nat
  | bits32 => 2
  | bits64 => 3

variable (target : WordSize)

def kWordSize : Nat := 1 <<< target.kWordSizeLog2

def kBitsPerWordLog2 : Nat := target.kWordSizeLog2 + 3

def kBitsPerWord : Nat := 1 <<< target.kBitsPerWordLog2

lemma kBitsPerWord_pos : 0 < target.kBitsPerWord := by cases target <;> decide

lemma shiftRight_kBitsPerWordLog2 (i : Nat) : i >>> target.kBitsPerWordLog2 = i / target.kBitsPerWord := by
  rw [shiftRight_eq_div_pow, kBitsPerWord, one_shiftLeft]

lemma shiftLeft_kBitsPerWordLog2 (i : Nat) : i <<< target.kBitsPerWordLog2 = i * target.kBitsPerWord := by
  rw [shiftLeft_eq, kBitsPerWord, one_shiftLeft]

lemma and_kBitsPerWord (i : Nat) : i &&& (target.kBitsPerWord - 1) = i % target.kBitsPerWord := by
  rw [kBitsPerWord, one_shiftLeft, and_two_pow_sub_one_eq_mod]

end WordSize

/-- A fixed length sequence of bits in words. -/
structure BitSet (target : WordSize) (N : Nat) where
  data : List (BitVec target.kBitsPerWord)
  length_data : data.length = 1 + (N - 1) / target.kBitsPerWord

namespace BitSet
variable {target : WordSize} {N : Nat}

def reset : BitSet target N := ⟨List.replicate _ 0, List.length_replicate⟩

variable (self : BitSet target N) {f : Nat → Bool}

def word (w : Nat) : Checked (BitVec target.kBitsPerWord) :=
  match self.data[w]? with
  | some bits => .ok bits
  | none => .error .out_of_bounds

def store (w : Nat) (bits : BitVec target.kBitsPerWord) : BitSet target N :=
  ⟨self.data.set w bits, by rw [List.length_set, self.length_data]⟩

def set (i : Nat) (value : Bool) : Checked (BitSet target N) := do
  check (i < N)
  let mask := BitVec.ofNat target.kBitsPerWord 1 <<< (i &&& (target.kBitsPerWord - 1))
  let w := i >>> target.kBitsPerWordLog2
  let bits ← self.word w
  return self.store w (if value then bits ||| mask else bits &&& ~~~mask)

def test (i : Nat) : Checked Bool := do
  check (i < N)
  let mask := BitVec.ofNat target.kBitsPerWord 1 <<< (i &&& (target.kBitsPerWord - 1))
  return (← self.word (i >>> target.kBitsPerWordLog2)) &&& mask ≠ 0

/-- The first bit of a word that is not zero. -/
def lowest (w : Nat) (bits : BitVec target.kBitsPerWord) : Int := ↑(w <<< target.kBitsPerWordLog2) + ↑bits.ctz.toNat

/-- The last bit of a word that is not zero. -/
def highest (w : Nat) (bits : BitVec target.kBitsPerWord) : Int :=
  ↑((w + 1) <<< target.kBitsPerWordLog2) - ↑bits.clz.toNat - 1

/-- The loop of `Next` over the words from `w` on. -/
def next_word : List (BitVec target.kBitsPerWord) → Nat → Int
  | [], _ => -1
  | bits :: words, w => if bits ≠ 0 then lowest w bits else next_word words (w + 1)

def next (i : Nat) : Checked Int := do
  check (i < N)
  let w := i >>> target.kBitsPerWordLog2
  let mask := BitVec.allOnes target.kBitsPerWord <<< (i &&& (target.kBitsPerWord - 1))
  let bits ← self.word w
  if bits &&& mask ≠ 0 then
    return lowest w (bits &&& mask)
  return next_word (self.data.drop (w + 1)) (w + 1)

/-- The search backwards over the words before `w`, the last of them first. -/
def previous_word : List (BitVec target.kBitsPerWord) → Int
  | [] => -1
  | bits :: words => if bits ≠ 0 then highest words.length bits else previous_word words

def last : Int := previous_word self.data.reverse

def clear_last_and_find_previous (current_last : Nat) : Checked (Int × BitSet target N) := do
  check (← self.test current_last)
  check (self.last = current_last)
  let w := current_last >>> target.kBitsPerWordLog2
  let bits ← self.word w
  let bits := bits ^^^ (BitVec.ofNat target.kBitsPerWord 1 <<< (current_last &&& (target.kBitsPerWord - 1)))
  let cleared := self.store w bits
  return (previous_word (cleared.data.take (w + 1)).reverse, cleared)

/-- The bit at an index of a sequence of words. -/
def bitOf {w : Nat} (words : List (BitVec w)) (i : Nat) : Bool :=
  match words[i / w]? with
  | some bits => bits.getLsbD (i % w)
  | none => false

def bit (i : Nat) : Bool := bitOf self.data i

/-- The first set bit from an index on, or -1. -/
def IsFirst (bit : Nat → Bool) (i : Nat) (result : Int) : Prop :=
  (result = -1 ∧ ∀ j, i ≤ j → bit j = false) ∨
    ∃ j : Nat, result = j ∧ i ≤ j ∧ bit j = true ∧ ∀ k, i ≤ k → k < j → bit k = false

/-- The last set bit, or -1. -/
def IsLast (bit : Nat → Bool) (result : Int) : Prop :=
  (result = -1 ∧ ∀ j, bit j = false) ∨
    ∃ j : Nat, result = j ∧ bit j = true ∧ ∀ k, j < k → bit k = false

section
variable {w : Nat} {words : List (BitVec w)} {i : Nat} {bits : BitVec w}

lemma bitOf_of_getElem? (h : words[i / w]? = some bits) : bitOf words i = bits.getLsbD (i % w) := by
  rw [bitOf, h]

lemma bitOf_cons (hw : 0 < w) (bits : BitVec w) (words : List (BitVec w)) (i : Nat) :
    bitOf (bits :: words) i = if i < w then bits.getLsbD i else bitOf words (i - w) := by
  split
  next hi => rw [bitOf, div_eq_of_lt hi, getElem?_cons_zero, mod_eq_of_lt hi]
  next hi =>
    obtain ⟨j, rfl⟩ : ∃ j, i = j + w := ⟨i - w, by omega⟩
    rw [bitOf, add_div_right j hw, getElem?_cons_succ, add_mod_right, Nat.add_sub_cancel, bitOf]

lemma bitOf_concat (hw : 0 < w) (words : List (BitVec w)) (bits : BitVec w) (i : Nat) : bitOf (words ++ [bits]) i =
      if i < words.length * w then bitOf words i else bits.getLsbD (i - words.length * w) := by
  induction words generalizing i with
  | nil =>
    rw [nil_append, bitOf_cons hw, length_nil, Nat.zero_mul, Nat.sub_zero, if_neg (Nat.not_lt_zero i)]
    split
    · rfl
    next hi =>
      rw [bits.getLsbD_of_ge i (by omega)]
      rfl
  | cons first words ih =>
    rw [cons_append, bitOf_cons hw, bitOf_cons hw, ih, length_cons, succ_mul]
    have hsub : i - w - words.length * w = i - (words.length * w + w) := by omega
    rw [hsub]
    by_cases hi : i < w
    · rw [if_pos hi, if_pos hi, if_pos (by omega)]
    rw [if_neg hi, if_neg hi]
    by_cases hin : i < words.length * w + w
    · rw [if_pos hin, if_pos (by omega)]
    · rw [if_neg hin, if_neg (by omega)]

lemma bitOf_eq_false_of_le (hw : 0 < w) (h : words.length * w ≤ i) : bitOf words i = false := by
  have hnone : words[i / w]? = none := getElem?_eq_none (by rwa [le_div_iff_mul_le hw])
  rw [bitOf, hnone]

lemma bitOf_set {k : Nat} (hk : k < words.length) (bits : BitVec w) (i : Nat) :
    bitOf (words.set k bits) i = if i / w = k then bits.getLsbD (i % w) else bitOf words i := by
  by_cases heq : i / w = k
  · rw [if_pos heq, bitOf_of_getElem? (by rw [heq, getElem?_set_self hk])]
  · rw [if_neg heq, bitOf, getElem?_set_ne (Ne.symm heq), bitOf]

lemma bitOf_drop {k i : Nat} (hw : 0 < w) : bitOf (words.drop k) i = bitOf words (k * w + i) := by
  rw [bitOf, bitOf, getElem?_drop, Nat.mul_comm k w, mul_add_div hw, mul_add_mod]

lemma bitOf_take {k i : Nat} (hw : 0 < w) : bitOf (words.take k) i = (decide (i < k * w) && bitOf words i) := by
  unfold bitOf
  rw [getElem?_take]
  by_cases hi : i < k * w
  · rw [if_pos (by rwa [div_lt_iff_lt_mul hw]), decide_eq_true hi, Bool.true_and]
  · rw [if_neg (by rwa [div_lt_iff_lt_mul hw]), decide_eq_false hi, Bool.false_and]

lemma getLsbD_single (hi : i < w) (k : Nat) : (1#w <<< i).getLsbD k = decide (k = i) := by
  rw [BitVec.getLsbD_shiftLeft, BitVec.getLsbD_one]
  grind

lemma and_single_ne_zero_iff (hi : i < w) : decide (bits &&& 1#w <<< i ≠ 0) = bits.getLsbD i := by
  have hbit (k : Nat) : (bits &&& 1#w <<< i).getLsbD k = (bits.getLsbD k && decide (k = i)) := by
    rw [BitVec.getLsbD_and, getLsbD_single hi]
  by_cases hset : bits.getLsbD i = true
  · rw [hset, decide_eq_true_iff]
    intro h0
    have hi' := hbit i
    rw [h0, hset, decide_eq_true rfl] at hi'
    exact absurd hi' (by simp)
  rw [Bool.not_eq_true] at hset
  rw [hset, decide_eq_false_iff_not, not_not]
  refine BitVec.eq_of_getLsbD_eq fun k hk => ?_
  rw [hbit]
  by_cases heq : k = i
  · rw [heq, hset]
    simp
  · simp [heq]

lemma getLsbD_highest (hw : 0 < w) (hbits : bits ≠ 0) : bits.clz.toNat < w ∧ bits.getLsbD (w - 1 - bits.clz.toNat) =
    true ∧ ∀ k, w - 1 - bits.clz.toNat < k → bits.getLsbD k = false := by
  have hlt := BitVec.clz_lt_iff_ne_zero.mpr hbits
  rw [BitVec.lt_def, BitVec.natCast_eq_ofNat, BitVec.toNat_ofNat, mod_eq_of_lt Nat.lt_two_pow_self] at hlt
  refine ⟨hlt, BitVec.getLsbD_true_clz_of_ne_zero hw hbits, fun k hk => ?_⟩
  have hbound := bits.toNat_lt_two_pow_sub_clz
  exact testBit_lt_two_pow (Nat.lt_of_lt_of_le hbound (Nat.pow_le_pow_right (by omega) (by omega)))

end

lemma IsFirst.extend {i i' : Nat} {result : Int} (h : IsFirst f i' result) (hle : i ≤ i')
    (hfalse : ∀ k, i ≤ k → k < i' → f k = false) : IsFirst f i result := by
  rcases h with ⟨hres, hnone⟩ | ⟨j, hres, hj, hbit, hbefore⟩
  · refine .inl ⟨hres, fun k hk => ?_⟩
    by_cases hlt : k < i'
    · exact hfalse k hk hlt
    · exact hnone k (by omega)
  refine .inr ⟨j, hres, by omega, hbit, fun k hk hkj => ?_⟩
  by_cases hlt : k < i'
  · exact hfalse k hk hlt
  · exact hbefore k (by omega) hkj

/-- The first bit of a word from an index of it on. -/
lemma isFirst_lowest {w i : Nat} {bits : BitVec target.kBitsPerWord} (hbits : bits ≠ 0)
    (hf : ∀ j, i ≤ j → j < target.kBitsPerWord → f (w * target.kBitsPerWord + j) = bits.getLsbD j)
    (hbelow : ∀ j, j < i → bits.getLsbD j = false) : IsFirst f (w * target.kBitsPerWord + i) (lowest w bits) := by
  have hset := BitVec.getLsbD_true_ctz_of_ne_zero hbits
  have hlt : bits.ctz.toNat < target.kBitsPerWord := by
    by_contra hge
    rw [bits.getLsbD_of_ge _ (by omega)] at hset
    cases hset
  have hle : i ≤ bits.ctz.toNat := by
    by_contra hless
    rw [hbelow _ (by omega)] at hset
    cases hset
  refine .inr ⟨w * target.kBitsPerWord + bits.ctz.toNat, ?_, by omega, ?_, ?_⟩
  · rw [lowest, WordSize.shiftLeft_kBitsPerWordLog2, Int.natCast_add]
  · rw [hf _ hle hlt, hset]
  · intro k hk hkj
    obtain ⟨j, rfl⟩ := Nat.exists_eq_add_of_le (Nat.le_of_add_right_le hk)
    rw [hf j (by omega) (by omega), BitVec.getLsbD_false_of_lt_ctz (by omega)]

lemma next_word_spec : ∀ (words : List (BitVec target.kBitsPerWord)) (w : Nat),
    (∀ j, f (w * target.kBitsPerWord + j) = bitOf words j) →
    IsFirst f (w * target.kBitsPerWord) (next_word words w) := by
  have hpos := target.kBitsPerWord_pos
  intro words
  induction words with
  | nil =>
    intro w hf
    refine .inl ⟨rfl, fun k hk => ?_⟩
    obtain ⟨j, rfl⟩ := Nat.exists_eq_add_of_le hk
    rw [hf, bitOf_eq_false_of_le hpos (by simp)]
  | cons bits words ih =>
    intro w hf
    have hfst (j : Nat) (hj : j < target.kBitsPerWord) : f (w * target.kBitsPerWord + j) = bits.getLsbD j := by
      rw [hf, bitOf_cons hpos, if_pos hj]
    unfold next_word
    by_cases hbits : bits = 0
    · rw [if_neg (not_not_intro hbits)]
      refine (ih (w + 1) fun j => ?_).extend (mul_le_mul_right _ (le_succ w)) fun k hk hlt => ?_
      · rw [Nat.succ_mul, Nat.add_assoc, hf, bitOf_cons hpos, if_neg (by omega), Nat.add_sub_cancel_left]
      · rw [succ_mul] at hlt
        obtain ⟨j, rfl⟩ := Nat.exists_eq_add_of_le hk
        rw [hfst j (by omega), hbits]
        exact BitVec.getLsbD_zero
    · rw [if_pos hbits]
      exact isFirst_lowest hbits (fun j _ hj => hfst j hj) fun j hj => absurd hj (not_lt_zero j)

lemma previous_word_spec (words : List (BitVec target.kBitsPerWord)) :
    IsLast (bitOf words) (previous_word words.reverse) := by
  have hpos := target.kBitsPerWord_pos
  induction words using reverseRecOn with
  | nil => exact .inl ⟨rfl, fun j => bitOf_eq_false_of_le hpos (by simp)⟩
  | append_singleton words bits ih =>
    have hconcat := bitOf_concat hpos words bits
    rw [reverse_append, reverse_singleton, singleton_append]
    unfold previous_word
    by_cases hbits : bits = 0
    · rw [if_neg (not_not_intro hbits)]
      have hsame : bitOf (words ++ [bits]) = bitOf words := by
        funext j
        rw [hconcat]
        split
        · rfl
        next hj =>
          rw [hbits, bitOf_eq_false_of_le hpos (by omega)]
          exact BitVec.getLsbD_zero
      rw [hsame]
      exact ih
    · rw [if_pos hbits]
      obtain ⟨hlt, hset, habove⟩ := getLsbD_highest hpos hbits
      refine .inr ⟨words.length * target.kBitsPerWord + (target.kBitsPerWord - 1 - bits.clz.toNat), ?_, ?_, ?_⟩
      · rw [highest, WordSize.shiftLeft_kBitsPerWordLog2, length_reverse, Nat.succ_mul]
        omega
      · rw [hconcat, if_neg (by omega), Nat.add_sub_cancel_left, hset]
      · intro k hk
        rw [hconcat, if_neg (by omega), habove _ (by omega)]

section
variable {i : Nat} (hi : i < N)
include hi

/-- The word that holds a bit. -/
lemma word_spec : ∃ bits, self.data[i / target.kBitsPerWord]? = some bits ∧
    self.word (i / target.kBitsPerWord) = .ok bits ∧ self.bit i = bits.getLsbD (i % target.kBitsPerWord) := by
  have hlt : i / target.kBitsPerWord < self.data.length := by
    have := Nat.div_le_div_right (c := target.kBitsPerWord) (le_sub_one_of_lt hi)
    rw [self.length_data]
    omega
  have hget := getElem?_eq_getElem hlt
  exact ⟨_, hget, by rw [word, hget], bitOf_of_getElem? hget⟩

lemma test_spec : self.test i = .ok (self.bit i) := by
  obtain ⟨bits, -, hword, hbit⟩ := self.word_spec hi
  rw [test, check_bind hi, WordSize.shiftRight_kBitsPerWordLog2, hword, ok_bind,
    WordSize.and_kBitsPerWord, pure_eq_ok, hbit, ← and_single_ne_zero_iff (mod_lt i target.kBitsPerWord_pos)]

/-- What storing a word does to the bits, when only the one at the index may change. -/
lemma bit_store (bits : BitVec target.kBitsPerWord) (value : Bool)
    (hbits : ∀ k, bits.getLsbD k = if k = i % target.kBitsPerWord then value
      else ((self.data[i / target.kBitsPerWord]?).getD 0).getLsbD k)
    (j : Nat) : (self.store (i / target.kBitsPerWord) bits).bit j = if j = i then value else self.bit j := by
  obtain ⟨old, hold, -, -⟩ := self.word_spec hi
  have hlt := (List.getElem?_eq_some_iff.mp hold).1
  rw [bit, store, bitOf_set hlt, hbits, hold, Option.getD_some]
  have hdec (k : Nat) := div_add_mod k target.kBitsPerWord
  by_cases hword : j / target.kBitsPerWord = i / target.kBitsPerWord
  · rw [if_pos hword]
    by_cases heq : j = i
    · rw [if_pos heq, if_pos (by rw [heq])]
    · rw [if_neg heq, if_neg fun hmod => heq (by rw [← hdec j, ← hdec i, hword, hmod]), bit,
        bitOf_of_getElem? (hword ▸ hold)]
  · rw [if_neg hword, if_neg fun heq => hword (by rw [heq]), bit]

lemma set_spec (value : Bool) :
    ∃ result, self.set i value = .ok result ∧ ∀ j, result.bit j = if j = i then value else self.bit j := by
  obtain ⟨bits, hget, hword, hbit⟩ := self.word_spec hi
  have hmod := mod_lt i target.kBitsPerWord_pos
  have hok : self.set i value = .ok (self.store (i / target.kBitsPerWord)
      (if value then bits ||| BitVec.ofNat target.kBitsPerWord 1 <<< (i % target.kBitsPerWord)
        else bits &&& ~~~(BitVec.ofNat target.kBitsPerWord 1 <<< (i % target.kBitsPerWord)))) := by
    simp [set, decide_eq_true hi, WordSize.shiftRight_kBitsPerWordLog2, hword, WordSize.and_kBitsPerWord]
  refine ⟨_, hok, self.bit_store hi _ value fun k => ?_⟩
  rw [hget, Option.getD_some]
  cases value with
  | true =>
    rw [if_pos rfl, BitVec.getLsbD_or, getLsbD_single hmod]
    grind
  | false =>
    rw [if_neg Bool.false_ne_true, BitVec.getLsbD_and, BitVec.getLsbD_not, getLsbD_single hmod]
    grind

lemma next_spec : ∃ result, self.next i = .ok result ∧ IsFirst self.bit i result := by
  have hpos := target.kBitsPerWord_pos
  have hmod := mod_lt i hpos
  have hdec : i / target.kBitsPerWord * target.kBitsPerWord + i % target.kBitsPerWord = i :=
    div_add_mod' i target.kBitsPerWord
  obtain ⟨bits, hget, hword, -⟩ := self.word_spec hi
  have hin (j : Nat) (hj : j < target.kBitsPerWord) :
      self.bit (i / target.kBitsPerWord * target.kBitsPerWord + j) = bits.getLsbD j := by
    have hdiv : (i / target.kBitsPerWord * target.kBitsPerWord + j) / target.kBitsPerWord = i / target.kBitsPerWord := by
      rw [Nat.mul_comm, mul_add_div hpos, div_eq_of_lt hj, Nat.add_zero]
    rw [bit, bitOf_of_getElem? (hdiv ▸ hget), Nat.mul_comm, mul_add_mod, mod_eq_of_lt hj]
  have hmask (j : Nat) : (bits &&& BitVec.allOnes target.kBitsPerWord <<< (i % target.kBitsPerWord)).getLsbD j =
      (decide (i % target.kBitsPerWord ≤ j) && bits.getLsbD j) := by
    rw [BitVec.getLsbD_and, BitVec.getLsbD_shiftLeft, BitVec.getLsbD_allOnes]
    grind
  unfold next
  simp only [check_bind hi, ok_bind, WordSize.shiftRight_kBitsPerWordLog2, hword, WordSize.and_kBitsPerWord]
  by_cases h0 : bits &&& BitVec.allOnes target.kBitsPerWord <<< (i % target.kBitsPerWord) = 0
  · rw [if_neg (not_not_intro h0)]
    refine ⟨_, rfl, (next_word_spec _ _ fun j => ?_).extend (by rw [Nat.succ_mul]; omega) fun k hk hlt => ?_⟩
    · rw [bitOf_drop hpos, bit]
    · rw [Nat.succ_mul] at hlt
      obtain ⟨j, rfl⟩ := Nat.exists_eq_add_of_le (show i / target.kBitsPerWord * target.kBitsPerWord ≤ k by omega)
      have hj := hmask j
      rw [h0, decide_eq_true (by omega), Bool.true_and] at hj
      rw [hin j (by omega), ← hj]
      exact BitVec.getLsbD_zero
  · rw [if_pos h0]
    refine ⟨_, rfl, ?_⟩
    have hfst : IsFirst self.bit (i / target.kBitsPerWord * target.kBitsPerWord + i % target.kBitsPerWord) _ :=
      isFirst_lowest h0 (fun j hle hj => by rw [hin j hj, hmask j, decide_eq_true hle, Bool.true_and])
        (fun j hj => by rw [hmask j, decide_eq_false (by omega), Bool.false_and])
    rwa [hdec] at hfst

end

lemma last_spec : IsLast self.bit self.last := previous_word_spec self.data

/-- Clears the last set bit and returns the one before it. -/
lemma clear_last_and_find_previous_spec {current_last : Nat} (hlt : current_last < N)
    (hset : self.bit current_last = true) (habove : ∀ k, current_last < k → self.bit k = false) :
    ∃ result cleared, self.clear_last_and_find_previous current_last = .ok (result, cleared) ∧
      (∀ j, cleared.bit j = if j = current_last then false else self.bit j) ∧ IsLast cleared.bit result := by
  have hpos := target.kBitsPerWord_pos
  obtain ⟨bits, hget, hword, -⟩ := self.word_spec hlt
  have hmod := mod_lt current_last hpos
  have hlast : self.last = current_last := by
    rcases self.last_spec with ⟨-, hnone⟩ | ⟨j, hj, hbit, hafter⟩
    · rw [hnone] at hset
      cases hset
    rw [hj]
    rcases Nat.lt_trichotomy j current_last with hless | rfl | hgt
    · rw [hafter _ hless] at hset
      cases hset
    · rfl
    · rw [habove _ hgt] at hbit
      cases hbit
  have hbits : self.bit current_last = bits.getLsbD (current_last % target.kBitsPerWord) := bitOf_of_getElem? hget
  have hclr := self.bit_store hlt (bits ^^^ BitVec.ofNat target.kBitsPerWord 1 <<< (current_last % target.kBitsPerWord)) false
    fun k => by
      rw [hset] at hbits
      rw [hget, Option.getD_some, BitVec.getLsbD_xor, getLsbD_single hmod]
      grind
  generalize hstore : self.store (current_last / target.kBitsPerWord)
    (bits ^^^ BitVec.ofNat target.kBitsPerWord 1 <<< (current_last % target.kBitsPerWord)) = cleared at hclr
  have hok : self.clear_last_and_find_previous current_last =
      .ok (previous_word (cleared.data.take (current_last / target.kBitsPerWord + 1)).reverse, cleared) := by
    simp [clear_last_and_find_previous, self.test_spec hlt, hset, hlast, WordSize.shiftRight_kBitsPerWordLog2, hword,
      WordSize.and_kBitsPerWord, hstore]
  refine ⟨_, _, hok, hclr, ?_⟩
  -- the words after the one of the cleared bit are zero
  have hsame : bitOf (cleared.data.take (current_last / target.kBitsPerWord + 1)) = cleared.bit := by
    funext j
    rw [bitOf_take hpos]
    by_cases hj : j < (current_last / target.kBitsPerWord + 1) * target.kBitsPerWord
    · rw [decide_eq_true hj, Bool.true_and, bit]
    have hgt : current_last < j := by
      have := lt_div_mul_add (a := current_last) hpos
      rw [Nat.succ_mul] at hj
      omega
    rw [decide_eq_false hj, Bool.false_and, hclr, if_neg (by omega), habove j hgt]
  rw [← hsame]
  exact previous_word_spec _

end BitSet
end dart
