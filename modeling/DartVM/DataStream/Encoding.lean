import DartVM.Lib.Septets
import DartVM.DataStream.Stream

namespace dart.datastream
open septets BitVec Nat

/-- The last byte of a marked encoding: the end marker is added to the value. -/
def MarkedLast (end_byte_marker : BitVec 8) (v : Int) (b : BitVec 8) : Prop :=
  127 < b.toNat ∧ (b.toNat : Int) = v + end_byte_marker.toNat

/-- Any other byte of a marked encoding: seven data bits and a clear high bit. -/
def MarkedMore (v : Int) (b : BitVec 8) : Prop :=
  (b.toNat : Int) = v % 128 ∧ ¬(-64 ≤ v ∧ v < 64)

/-- The last byte of a (S)LEB128 encoding. The data bits it can hold start at
`low`: 0 for LEB128 and -64 for SLEB128. -/
def LebLast (low v : Int) (b : BitVec 8) : Prop :=
  (b.toNat : Int) = v % 128 ∧ (low ≤ v ∧ v < low + 128)

/-- Any other byte of a (S)LEB128 encoding has its high bit set. -/
def LebMore (low v : Int) (b : BitVec 8) : Prop :=
  (b.toNat : Int) = v % 128 + 128 ∧ ¬(low ≤ v ∧ v < low + 128)

section
variable {w : Nat} {part : BitVec 8}

lemma toNat_data_bits (hw : 8 ≤ w) (signed : Bool) (v : BitVec w) :
    (((v &&& BitVec.ofNat w kByteMask).setWidth 8).toNat : Int) = value signed v % 128 := by
  have hpow : 2 ^ 8 ≤ 2 ^ w := Nat.pow_le_pow_right (by omega) hw
  have hmask : kByteMask % 2 ^ w = 2 ^ 7 - 1 := mod_eq_of_lt (by simp; omega)
  have hmod : (value signed v) % 128 = (v.toNat : Int) % 128 := value_emod_two_pow signed v (k := 7) (by omega)
  rw [toNat_setWidth, toNat_and, toNat_ofNat, hmask, and_two_pow_sub_one_eq_mod]
  omega

lemma toNat_end_byte (hw : 8 ≤ w) (signed : Bool) (v : BitVec w) (end_byte_marker : BitVec 8)
    (hlo : 0 ≤ value signed v + end_byte_marker.toNat) (hhi : value signed v + end_byte_marker.toNat < 256) :
    (((v + end_byte_marker.setWidth w).setWidth 8).toNat : Int) = value signed v + end_byte_marker.toNat := by
  have hpow : 2 ^ 8 ∣ 2 ^ w := pow_dvd_pow 2 hw
  have hmod : (value signed v) % 256 = (v.toNat : Int) % 256 := value_emod_two_pow signed v hw
  have hmarker : end_byte_marker.toNat % 2 ^ w = end_byte_marker.toNat :=
    Nat.mod_eq_of_lt (lt_of_lt_of_le end_byte_marker.isLt (Nat.pow_le_pow_right (by omega) hw))
  rw [toNat_setWidth, toNat_add, toNat_setWidth, mod_mod_of_dvd _ hpow]
  omega

lemma toNat_or_more (hpart : part.toNat < 128) : (part ||| kMoreDataMask).toNat = part.toNat + 128 := by
  have hor : part ||| kMoreDataMask = part ||| ((1 : BitVec 8) <<< 7) := rfl
  rw [hor, or_shiftLeft_eq_add hpart]
  have hshift : ((1 : BitVec 8) <<< 7).toNat = 128 := by decide
  rw [toNat_add]
  omega

lemma sign_bit_eq_zero_iff (hpart : part.toNat < 128) : part &&& kSignMask = 0 ↔ part.toNat < 64 := by
  revert part
  decide

/-- An arithmetic shift keeps the sign, so setting the high bits again changes
nothing. -/
lemma sshiftRight_or_sign_extend (hw : 8 ≤ w) {v : BitVec w} (hv : v.toInt < 0) :
    v.sshiftRight kDataBitsPerByte ||| WriteStream.sign_extend w = v.sshiftRight kDataBitsPerByte := by
  have hmsb : v.msb = true := by rw [msb_eq_toInt, decide_eq_true_iff]; exact hv
  rw [WriteStream.sign_extend, not_two_pow_sub_one]
  ext i hi
  by_cases hhi : w - 7 ≤ i
  · simp [getElem_sshiftRight, hmsb, show ¬(7 + i < w) by omega]
  · simp [getElem_shiftLeft, show i < w - 7 by omega]

end

namespace WriteStream
variable {w : Nat}

/-- One byte followed by the spelling of the rest spells the whole. -/
lemma Appends.more {self : WriteStream} {b : BitVec 8} {v : Int} {IsLast IsMore : Int → BitVec 8 → Prop}
    {next : WriteStream → Checked WriteStream} (hb : IsMore v b)
    (hnext : ∀ stream : WriteStream, ∃ bytes, Spells IsLast IsMore (v / 128) bytes ∧ stream.Appends (next stream) bytes)
    : ∃ bytes, Spells IsLast IsMore v bytes ∧ self.Appends (self.write_byte b >>= next) bytes := by
  obtain ⟨middle, hmiddle, hbytes⟩ := self.write_byte_appends b
  obtain ⟨rest, hspells, hrest⟩ := hnext middle
  exact ⟨b :: rest, .more hb hspells, Appends.trans hmiddle hbytes hrest⟩

variable (hw : 8 ≤ w)
include hw
variable (signed : Bool)

lemma write_spells (promoted : signed = true ∨ w ≤ 16) (self : WriteStream) (v : BitVec w) :
    ∃ bytes, Spells (MarkedLast kEndByteMarker) MarkedMore (value signed v) bytes ∧
      self.Appends (self.write signed promoted v) bytes := by
  fun_induction write signed promoted self v with
  | case1 self v hmore ih =>
    simp only [kMinDataPerByte_eq, kMaxDataPerByte_eq] at hmore
    refine Appends.more ⟨toNat_data_bits hw signed v, by omega⟩ fun stream => ?_
    rw [← value_shift_right]
    exact ih stream
  | case2 self v hlast =>
    simp only [kMinDataPerByte_eq, kMaxDataPerByte_eq] at hlast
    have hbyte := toNat_end_byte hw signed v kEndByteMarker (by simp; omega) (by simp; omega)
    refine ⟨_, .last ⟨?_, hbyte⟩, self.write_byte_appends _⟩
    have hmarker : kEndByteMarker.toNat = 192 := by decide
    omega

lemma write_unsigned_loop_spells (self : WriteStream) (v : BitVec w) (hv : 0 ≤ value signed v) :
    ∃ bytes, Spells (MarkedLast kEndUnsignedByteMarker) MarkedMore (value signed v) bytes ∧
      self.Appends (self.write_unsigned_loop signed v) bytes := by
  fun_induction write_unsigned_loop signed self v with
  | case1 self v hmore ih =>
    simp only [kMaxUnsignedDataPerByte_eq] at hmore
    refine Appends.more ⟨toNat_data_bits hw signed v, by omega⟩ fun stream => ?_
    rw [← value_shift_right]
    exact ih stream (by rw [value_shift_right]; omega)
  | case2 self v hlast =>
    simp only [kMaxUnsignedDataPerByte_eq] at hlast
    have hbyte := toNat_end_byte hw signed v kEndUnsignedByteMarker (by simp; omega) (by simp; omega)
    refine ⟨_, .last ⟨?_, hbyte⟩, self.write_byte_appends _⟩
    have hmarker : kEndUnsignedByteMarker.toNat = 128 := by decide
    omega

lemma write_unsigned_spells (self : WriteStream) (v : BitVec w) (hv : 0 ≤ value signed v) :
    ∃ bytes, Spells (MarkedLast kEndUnsignedByteMarker) MarkedMore (value signed v) bytes ∧
      self.Appends (self.write_unsigned signed v) bytes := by
  simpa [write_unsigned, hv] using self.write_unsigned_loop_spells hw signed v hv

variable (self : WriteStream)

lemma write_leb128_loop_spells (remainder : BitVec w) :
    ∃ bytes, Spells (LebLast 0) (LebMore 0) remainder.toNat bytes ∧
      self.Appends (self.write_leb128_loop remainder) bytes := by
  fun_induction write_leb128_loop self remainder with
  | case1 self remainder part hlast =>
    have h0 : remainder.toNat / 128 = 0 := by
      simpa [shiftRight_eq_div_pow] using congrArg BitVec.toNat hlast
    exact ⟨_, .last ⟨toNat_data_bits hw false remainder, by omega⟩, self.write_byte_appends _⟩
  | case2 self remainder part hmore ih =>
    have hshift : (remainder >>> kDataBitsPerByte).toNat = remainder.toNat / 128 := by
      simp [shiftRight_eq_div_pow]
    have hpart : (part.toNat : Int) = remainder.toNat % 128 := toNat_data_bits hw false remainder
    have hne : remainder.toNat / 128 ≠ 0 := by
      intro h0
      exact hmore (eq_of_toNat_eq (by rw [hshift, h0]; simp))
    refine Appends.more ⟨?_, by omega⟩ fun stream => ?_
    · rw [toNat_or_more (by omega)]
      omega
    · have hrest := ih stream
      rw [hshift] at hrest
      exact_mod_cast hrest

lemma write_leb128_spells (self : WriteStream) (v : BitVec w) (hv : 0 ≤ value signed v) :
    ∃ bytes, Spells (LebLast 0) (LebMore 0) v.toNat bytes ∧ self.Appends (self.write_leb128 signed v) bytes := by
  have hchk : (!signed || decide (0 ≤ v.toInt)) = true := by
    cases signed with
    | true => simpa [value] using hv
    | false => rfl
  rw [write_leb128, hchk]
  exact self.write_leb128_loop_spells hw v

/-- One round of the `WriteSLEB128` loop: the assertion on the sign holds, and the
part is the last one exactly when the value fits in its seven bits. -/
lemma write_sleb128_loop_succ (fuel : Nat) (self : WriteStream) (v : BitVec w) :
    write_sleb128_loop (v.toInt < 0) (fuel + 1) self v = if -64 ≤ v.toInt ∧ v.toInt < 64 then
        self.write_byte ((v &&& BitVec.ofNat w kByteMask).setWidth 8) else
        self.write_byte ((v &&& BitVec.ofNat w kByteMask).setWidth 8 ||| kMoreDataMask) >>= fun stream =>
          write_sleb128_loop (v.toInt < 0) fuel stream (v.sshiftRight kDataBitsPerByte) := by
  have hpart : (((v &&& BitVec.ofNat w kByteMask).setWidth 8).toNat : Int) = v.toInt % 128 := toNat_data_bits hw true v
  have hshift : (v.sshiftRight kDataBitsPerByte).toInt = v.toInt / 128 := value_shift_right true v
  have hkeep : (if decide (v.toInt < 0) = true then v.sshiftRight kDataBitsPerByte ||| sign_extend w
      else v.sshiftRight kDataBitsPerByte) = v.sshiftRight kDataBitsPerByte := by
    split
    · rename_i hneg
      exact sshiftRight_or_sign_extend hw (by simpa using hneg)
    · rfl
  rw [write_sleb128_loop]
  generalize (v &&& BitVec.ofNat w kByteMask).setWidth 8 = part at hpart ⊢
  have hsign : (decide ((v.sshiftRight kDataBitsPerByte).toInt < 0) == decide (v.toInt < 0)) = true := by
    rw [hshift]
    simp
    omega
  simp only [hkeep, hsign, check_true, ok_bind]
  generalize v.sshiftRight kDataBitsPerByte = next at hshift ⊢
  have hones : next = ~~~0 ↔ v.toInt / 128 = -1 := by
    have hint : (~~~(0 : BitVec w)).toInt = -1 := by simp [toInt_allOnes, show 0 < w by omega]
    rw [← toInt_inj, hshift, hint]
  have h0 : next = 0 ↔ v.toInt / 128 = 0 := by
    rw [← toInt_inj, hshift]
    simp
  have hsmall : part.toNat < 128 := by omega
  have hbit := sign_bit_eq_zero_iff hsmall
  congr 1
  by_cases hneg : v.toInt < 0
  · simp only [hneg, decide_true, if_true, Bool.and_eq_true, beq_iff_eq, bne_iff_ne, ne_eq, hones, hbit, eq_iff_iff]
    omega
  · simp only [hneg, decide_false, Bool.false_eq_true, if_false, Bool.and_eq_true, beq_iff_eq, h0, hbit, eq_iff_iff]
    omega

lemma write_sleb128_loop_spells (k : Nat) : ∀ (fuel : Nat) (self : WriteStream) (v : BitVec w), k < fuel →
    -(64 * 128 ^ k) ≤ v.toInt → v.toInt < 64 * 128 ^ k → ∃ bytes, Spells (LebLast (-64)) (LebMore (-64)) v.toInt bytes ∧
      self.Appends (write_sleb128_loop (v.toInt < 0) fuel self v) bytes := by
  have hpart (v : BitVec w) : (((v &&& BitVec.ofNat w kByteMask).setWidth 8).toNat : Int) = v.toInt % 128 :=
    toNat_data_bits hw true v
  induction k with
  | zero =>
    rintro (_ | fuel) self v hfuel hlo hhi
    · exact absurd hfuel (by omega)
    · rw [write_sleb128_loop_succ hw, if_pos (by omega)]
      exact ⟨_, .last ⟨hpart v, by omega⟩, self.write_byte_appends _⟩
  | succ k ih =>
    rintro (_ | fuel) self v hfuel hlo hhi
    · exact absurd hfuel (by omega)
    · rw [write_sleb128_loop_succ hw]
      by_cases hlast : -64 ≤ v.toInt ∧ v.toInt < 64
      · rw [if_pos hlast]
        exact ⟨_, .last ⟨hpart v, by omega⟩, self.write_byte_appends _⟩
      rw [if_neg hlast]
      have hdata := hpart v
      refine Appends.more ⟨?_, by omega⟩ fun stream => ?_
      · rw [toNat_or_more (by omega)]
        omega
      · have hshift : (v.sshiftRight kDataBitsPerByte).toInt = v.toInt / 128 := value_shift_right true v
        have hrest := ih fuel stream (v.sshiftRight kDataBitsPerByte) (by omega) (by omega) (by omega)
        have hsign : decide (v.toInt / 128 < 0) = decide (v.toInt < 0) := by
          rw [decide_eq_decide]
          omega
        rwa [hshift, hsign] at hrest

lemma write_sleb128_spells (v : BitVec w) : ∃ bytes, Spells (LebLast (-64)) (LebMore (-64)) v.toInt bytes ∧
      self.Appends (self.write_sleb128 v) bytes := by
  have hlo := le_toInt v
  have hhi := toInt_lt (x := v)
  have hpow : (2 : Int) ^ (w - 1) ≤ 64 * 128 ^ (w - 1) := by
    have hle : (2 : Int) ^ (w - 1) ≤ 128 ^ (w - 1) := pow_le_pow_left₀ (by omega) (by omega) _
    omega
  exact write_sleb128_loop_spells hw (w - 1) w self v (by omega) (by omega) (by omega)

end WriteStream
end dart.datastream
