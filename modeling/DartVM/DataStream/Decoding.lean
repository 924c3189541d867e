import DartVM.DataStream.Encoding

namespace dart.datastream.ReadStream
open septets List
variable {w : Nat} {low v : Int} {bytes : List (BitVec 8)} {b : BitVec 8} {s : Nat}

lemma setWidth_eq_ofInt (b : BitVec 8) : b.setWidth w = BitVec.ofInt w b.toNat := by
  rw [BitVec.ofInt_natCast, BitVec.ofNat_toNat]

lemma unmark_eq {end_byte_marker : BitVec 8} {v : Int}
    (h : MarkedLast end_byte_marker v b) : unmark w b end_byte_marker = BitVec.ofInt w v := by
  rw [unmark, setWidth_eq_ofInt, setWidth_eq_ofInt, h.2, BitVec.ofInt_add, BitVec.add_sub_cancel]

/-- Adding the data bits of a byte to a word that is filled up to position `s`. -/
lemma or_data_bits {low : BitVec w} (hlo : low.toNat < 2 ^ s) {v : Int}
    (hb : (b.toNat : Int) = v % 128) : low ||| (b.setWidth w <<< s) = place low s (v % 128) ∧
      (place low s (v % 128)).toNat < 2 ^ (s + 7) := by
  refine ⟨?_, toNat_place_lt hlo (by omega) (by omega)⟩
  rw [setWidth_eq_ofInt, or_shiftLeft hlo, hb]

section
variable {end_byte_marker : BitVec 8} {bytes : List (BitVec 8)} {v : Int} {n : Nat}

section
variable (h : Spells (MarkedLast end_byte_marker) MarkedMore v bytes)
include h
variable (rest : ReadStream)

/-- The loop of `Read<T>` adds the value spelled by the byte it is entered with and
the bytes that follow. -/
lemma read_loop_spells :
    ∀ {whole : Int} {b : BitVec 8} {r : BitVec w} {s : Nat}, MarkedMore whole b → whole / 128 = v → r.toNat < 2 ^ s →
      read_loop end_byte_marker b r s (bytes ++ rest) = .ok (place r s whole, rest) := by
  induction h with
  | @last v next hlast =>
    intro whole b r s hb hv hr
    obtain ⟨hor, hlt⟩ := or_data_bits hr hb.1
    rw [singleton_append, read_loop]
    simp only [kMaxUnsignedDataPerByte_eq, kDataBitsPerByte_eq, if_neg (not_le.mpr hlast.1), hor,
      unmark_eq hlast, or_shiftLeft hlt]
    rw [← hv]
    exact congrArg (fun word => Except.ok (word, rest)) (place_place r s 7 whole)
  | @more v next bytes hmore _ ih =>
    intro whole b r s hb hv hr
    obtain ⟨hor, hlt⟩ := or_data_bits hr hb.1
    have hnext : next.toNat ≤ 127 := by
      have hdata := hmore.1
      omega
    rw [cons_append, read_loop]
    simp only [kMaxUnsignedDataPerByte_eq, kDataBitsPerByte_eq, if_pos hnext, hor]
    rw [ih hmore rfl hlt, ← hv]
    exact congrArg (fun word => Except.ok (word, rest)) (place_place r s 7 whole)

/-- `Read<T>` returns the value that a marked encoding spells. -/
lemma read_marked_spells : read_marked w end_byte_marker (bytes ++ rest) = .ok (BitVec.ofInt w v, rest) := by
  cases h with
  | @last v b hlast =>
    simp [read_marked, hlast.1, unmark_eq hlast]
  | @more v b bytes hmore hrest =>
    have hb : ¬127 < b.toNat := by
      have hdata := hmore.1
      omega
    simp only [read_marked, cons_append, read_byte_cons, ok_bind, kMaxUnsignedDataPerByte_eq, gt_iff_lt, hb, if_false]
    rw [read_loop_spells hrest rest hmore rfl (by simp), place_zero]

lemma unrolled_body_spells : ∀ {n s : Nat} {r : BitVec w}, bytes.length ≤ n + 1 → r.toNat < 2 ^ s →
      unrolled_body end_byte_marker (s + 7 * n) (range' s n 7) r (bytes ++ rest) = .ok (place r s v, rest) := by
  induction h with
  | @last v b hlast =>
    intro n s r _ hr
    cases n with
    | zero => simp [unrolled_body, hlast.1, unmark_eq hlast, or_shiftLeft hr]
    | succ n => simp [unrolled_body, range'_succ, hlast.1, unmark_eq hlast, or_shiftLeft hr]
  | @more v b bytes hmore hrest ih =>
    intro n s r hlen hr
    obtain ⟨hor, hlt⟩ := or_data_bits hr hmore.1
    have hb : ¬127 < b.toNat := by
      have hdata := hmore.1
      omega
    cases n with
    | zero =>
      cases hrest <;> simp at hlen
    | succ n =>
      rw [range'_succ, cons_append, unrolled_body]
      simp only [read_byte_cons, ok_bind, kMaxUnsignedDataPerByte_eq, gt_iff_lt, hb, if_false, hor]
      rw [show s + 7 * (n + 1) = s + 7 + 7 * n by omega, ih (by simpa using hlen) hlt]
      exact congrArg (fun word => Except.ok (word, rest)) (place_place r s 7 v)

/-- An unrolled reader with enough bodies returns the value that the bytes spell. -/
lemma unrolled_spells (hlen : bytes.length ≤ n + 2) :
    unrolled w (range' 7 n 7) (7 + 7 * n) end_byte_marker (bytes ++ rest) = .ok (BitVec.ofInt w v, rest) := by
  cases h with
  | @last v b hlast =>
    simp [unrolled, hlast.1, unmark_eq hlast]
  | @more v b bytes hmore hrest =>
    have h0 : (0 : BitVec w).toNat < 2 ^ 0 := by simp
    obtain ⟨hor, hlt⟩ := or_data_bits h0 hmore.1
    have hb : ¬127 < b.toNat := by
      have hdata := hmore.1
      omega
    have hinit : b.setWidth w = place (0 : BitVec w) 0 (v % 128) := by simpa using hor
    simp only [unrolled, cons_append, read_byte_cons, ok_bind, kMaxUnsignedDataPerByte_eq, gt_iff_lt,
      hb, if_false, hinit]
    rw [unrolled_body_spells hrest rest (by simpa using hlen) hlt, ← place_zero v]
    exact congrArg (fun word => Except.ok (word, rest)) (place_place 0 0 7 v)

end

/-- Once inside, an unrolled reader does what the loop does, unless the value takes
more bytes than it has bodies. -/
lemma unrolled_body_eq_read_loop (n : Nat) :
    ∀ {s : Nat} {b : BitVec 8} {r : BitVec w} {self : ReadStream} {result : BitVec w × ReadStream},
      unrolled_body end_byte_marker (s + 7 + 7 * n) (range' (s + 7) n 7)
        (r ||| (b.setWidth w <<< s)) self = .ok result → read_loop end_byte_marker b r s self = .ok result := by
  induction n with
  | zero =>
    intro s b r self result h
    cases self with
    | nil => simp [unrolled_body, read_byte] at h
    | cons next self =>
      by_cases hnext : next.toNat ≤ 127
      · simp [unrolled_body, not_lt.mpr hnext] at h
      · simpa [unrolled_body, read_loop, hnext, not_le.mp hnext] using h
  | succ n ih =>
    intro s b r self result h
    rw [range'_succ, show s + 7 + 7 * (n + 1) = s + 7 + 7 + 7 * n by omega] at h
    cases self with
    | nil => simp [unrolled_body, read_byte] at h
    | cons next self =>
      by_cases hnext : next.toNat ≤ 127
      · simp only [unrolled_body, read_byte_cons, ok_bind, kMaxUnsignedDataPerByte_eq, gt_iff_lt,
          not_lt.mpr hnext, if_false] at h
        simpa [read_loop, hnext] using ih h
      · simpa [unrolled_body, read_loop, hnext, not_le.mp hnext] using h

/-- Whatever an unrolled reader accepts, the generic reader reads the same way. -/
lemma unrolled_eq_read_marked {self : ReadStream} {result : BitVec w × ReadStream}
    (h : self.unrolled w (range' 7 n 7) (7 + 7 * n) end_byte_marker = .ok result) :
    self.read_marked w end_byte_marker = .ok result := by
  cases self with
  | nil => simp [unrolled, read_byte] at h
  | cons b self =>
    by_cases hb : b.toNat ≤ 127
    · simp only [unrolled, read_byte_cons, ok_bind, kMaxUnsignedDataPerByte_eq, gt_iff_lt, not_lt.mpr hb, if_false] at h
      simp only [read_marked, read_byte_cons, ok_bind, kMaxUnsignedDataPerByte_eq, gt_iff_lt, not_lt.mpr hb, if_false]
      exact unrolled_body_eq_read_loop n (by simpa using h)
    · simpa [unrolled, read_marked, not_le.mp hb] using h

end

lemma toNat_and_byte_mask : ∀ b : BitVec 8, (b &&& BitVec.ofNat 8 kByteMask).toNat = b.toNat % 128 := by
  decide

lemma and_more_eq_zero_iff : ∀ b : BitVec 8, b &&& kMoreDataMask = 0 ↔ b.toNat < 128 := by
  decide

/-- The bits that remain from position `s` on fit above it in a word of `w` bits. -/
def FitsAbove (low : Int) (w s : Nat) (v : Int) : Prop :=
  low * 2 ^ (w - s) ≤ 128 * v ∧ 128 * v < (low + 128) * 2 ^ (w - s)

/-- If one byte does not hold all that remains, there is room for another one. -/
lemma FitsAbove.next (hlo : low = 0 ∨ low = -64) (h : FitsAbove low w s v)
    (hmore : ¬(low ≤ v ∧ v < low + 128)) : s + 7 < w ∧ FitsAbove low w (s + 7) (v / 128) := by
  obtain ⟨hle, hlt⟩ := h
  have hroom : s + 7 < w := by
    by_contra hfull
    have hpow : (2 : Int) ^ (w - s) ≤ 2 ^ 7 := pow_le_pow_right₀ (by omega) (by omega)
    rcases hlo with rfl | rfl <;> omega
  obtain ⟨q, hq⟩ : ∃ q, w - s = q + 8 := ⟨w - s - 8, by omega⟩
  have hq' : w - (s + 7) = q + 1 := by omega
  refine ⟨hroom, ?_⟩
  rw [hq, pow_add] at hle hlt
  rw [FitsAbove, hq', pow_succ]
  rcases hlo with rfl | rfl <;> omega

/-- The loop of `ReadLEB128` passes its assertions on the bytes of an encoding and
stops at the last one. What it returns has the value's data bits; those above are
the sign of the last group. -/
lemma read_leb128_loop_spells (hlo : low = 0 ∨ low = -64)
    (h : Spells (LebLast low) (LebMore low) v bytes) (rest : ReadStream) :
    ∀ {r : BitVec w} {s : Nat}, r.toNat < 2 ^ s → s < w → FitsAbove low w s v →
      ∃ r' s' b last, read_leb128_loop r s (bytes ++ rest) = .ok ((r', s', b), rest) ∧
        r'.toNat < 2 ^ s' ∧ LebLast low last b ∧ place r' s' (last / 128) = place r s v := by
  induction h with
  | @last v b hlast =>
    intro r s hr hs _
    have hdata : ((b &&& BitVec.ofNat 8 kByteMask).toNat : Int) = v % 128 := by
      rw [toNat_and_byte_mask]
      have hb := hlast.1
      omega
    have hend : b &&& kMoreDataMask = 0 := (and_more_eq_zero_iff b).mpr (by have hb := hlast.1; omega)
    obtain ⟨hor, hlt⟩ := or_data_bits hr hdata
    refine ⟨_, s + 7, b, v, ?_, hlt, hlast, place_place r s 7 v⟩
    rw [singleton_append, read_leb128_loop, decide_eq_true hs]
    have hcnt : s + 7 < 7 + w := by omega
    simp only [check_true, ok_bind, hor, hend, ne_eq, not_true, if_false, kDataBitsPerByte_eq, hcnt,
      decide_true, pure_eq_ok]
  | @more v b bytes hmore _ ih =>
    intro r s hr hs hfits
    have hdata : ((b &&& BitVec.ofNat 8 kByteMask).toNat : Int) = v % 128 := by
      rw [toNat_and_byte_mask]
      have hb := hmore.1
      omega
    have hcontinue : b &&& kMoreDataMask ≠ 0 := by
      rw [Ne, and_more_eq_zero_iff]
      have hb := hmore.1
      omega
    obtain ⟨hor, hlt⟩ := or_data_bits hr hdata
    obtain ⟨hroom, hnext⟩ := hfits.next hlo hmore.2
    obtain ⟨r', s', last, group, hloop, hr', hgroup, hplace⟩ := ih hlt hroom hnext
    refine ⟨r', s', last, group, ?_, hr', hgroup, hplace.trans (place_place r s 7 v)⟩
    rw [cons_append, read_leb128_loop, decide_eq_true hs]
    simp only [check_true, ok_bind, if_pos hcontinue, hor, kDataBitsPerByte_eq]
    exact hloop

lemma read_leb128_spells (hw : 0 < w) (h : Spells (LebLast 0) (LebMore 0) v bytes) (hv : 0 ≤ v) (hvw : v < 2 ^ w)
    (rest : ReadStream) : read_leb128 w (bytes ++ rest) = .ok (BitVec.ofInt w v, rest) := by
  have hfits : FitsAbove 0 w 0 v := ⟨by omega, by simp only [Nat.sub_zero]; omega⟩
  obtain ⟨r, s, b, last, hloop, -, hlast, hplace⟩ :=
    read_leb128_loop_spells (r := 0) (.inl rfl) h rest (by simp) hw hfits
  have h0 : last / 128 = 0 := by
    have hrng := hlast.2
    omega
  rw [h0, place_zero] at hplace
  rw [read_leb128, hloop]
  simp [← hplace, place]

lemma read_sleb128_spells (hw : 0 < w) (h : Spells (LebLast (-64)) (LebMore (-64)) v bytes) (hv : -(2 ^ (w - 1)) ≤ v)
    (hvw : v < 2 ^ (w - 1)) (rest : ReadStream) : read_sleb128 w (bytes ++ rest) = .ok (BitVec.ofInt w v, rest) := by
  have hfits : FitsAbove (-64) w 0 v := by
    have hpow : (2 : Int) ^ w = 2 * 2 ^ (w - 1) := by rw [← pow_succ', Nat.sub_add_cancel hw]
    exact ⟨by rw [Nat.sub_zero]; omega, by rw [Nat.sub_zero]; omega⟩
  obtain ⟨r, s, b, last, hloop, hr, hlast, hplace⟩ :=
    read_leb128_loop_spells (r := 0) (.inr rfl) h rest (by simp) hw hfits
  rw [place_zero] at hplace
  rw [read_sleb128, hloop, ok_bind, ← hplace]
  dsimp only
  have hbyte := hlast.1
  have hrng := hlast.2
  have hsmall : b.toNat < 128 := by omega
  have hsign := sign_bit_eq_zero_iff hsmall
  by_cases hneg : last < 0
  · -- the groups end in a set sign bit: the bits above them are ones
    have hset : b &&& kSignMask ≠ 0 := by
      rw [Ne, hsign]
      omega
    rw [show last / 128 = -1 by omega, ← or_shiftLeft hr]
    by_cases hs : s < w
    · rw [if_pos ⟨hset, hs⟩, not_two_pow_sub_one, pure_eq_ok]
    · rw [if_neg (fun h => hs h.2), BitVec.shiftLeft_eq_zero (by omega)]
      rfl
  · have hclear : b &&& kSignMask = 0 := hsign.mpr (by omega)
    rw [show last / 128 = 0 by omega, if_neg (fun h => h.1 hclear)]
    simp [place]

end dart.datastream.ReadStream
