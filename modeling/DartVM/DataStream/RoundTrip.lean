import DartVM.DataStream.Decoding

namespace dart.datastream
open BitVec

/-- What `WriteRefId` writes for the bits of `n` from position `shift` on, if there
are any. -/
def refIdGroup (n shift : Nat) : List (BitVec 8) :=
  if n / 2 ^ shift ≠ 0 then [BitVec.ofNat 8 (n / 2 ^ shift % 128)] else []

def refIdBytes (n : Nat) : List (BitVec 8) :=
  refIdGroup n 21 ++ refIdGroup n 14 ++ refIdGroup n 7 ++ [BitVec.ofNat 8 (n % 128 + 128)]

namespace WriteStream
variable {v : BitVec 64}

lemma toNat_sshiftRight (hv : 0 ≤ v.toInt) (shift : Nat) : (v.sshiftRight shift).toNat = v.toNat / 2 ^ shift := by
  have hmsb : v.msb = false := by
    rw [msb_eq_toInt, decide_eq_false_iff_not]
    omega
  rw [sshiftRight_eq_of_msb_false hmsb, toNat_ushiftRight, Nat.shiftRight_eq_div_pow]

/-- Pushing into reserved space appends and keeps the rest of the reservation. -/
lemma push_group_spec {self : WriteStream} (hv : 0 ≤ v.toInt) (shift room : Nat)
    (hroom : self.bytes.length + (room + 1) ≤ self.capacity) : ∃ stream, self.push_group v shift = .ok stream ∧
      stream.bytes = self.bytes ++ refIdGroup v.toNat shift ∧ stream.bytes.length + room ≤ stream.capacity := by
  have hshift := toNat_sshiftRight hv shift
  have h0 : v.sshiftRight shift = 0 ↔ v.toNat / 2 ^ shift = 0 := by
    rw [← toNat_inj, hshift]
    rfl
  have hbyte : (v.sshiftRight shift &&& 127).setWidth 8 = BitVec.ofNat 8 (v.toNat / 2 ^ shift % 128) := by
    apply eq_of_toNat_eq
    rw [toNat_setWidth, toNat_and, hshift, show (127 : BitVec 64).toNat = 2 ^ 7 - 1 from rfl,
      Nat.and_two_pow_sub_one_eq_mod, toNat_ofNat]
  have hfree : self.bytes.length < self.capacity := by omega
  simp only [push_group, refIdGroup, ne_eq, h0]
  split
  · obtain ⟨stream, hpush, hbytes, hcap⟩ := push_spec hfree (BitVec.ofNat 8 (v.toNat / 2 ^ shift % 128))
    refine ⟨stream, by rw [hbyte, hpush], hbytes, ?_⟩
    rw [hbytes, hcap]
    simp
    omega
  · exact ⟨self, rfl, by simp, by omega⟩

lemma write_ref_id_appends (self : WriteStream) (hv : 0 ≤ v.toInt) (hlt : v.toInt < 2 ^ 28) :
    self.Appends (self.write_ref_id v) (refIdBytes v.toNat) := by
  obtain ⟨grown, hgrown, hbytes, hroom⟩ := self.ensure_space_spec (show 0 < 4 by omega)
  obtain ⟨first, hfst, hbytes1, hroom1⟩ := push_group_spec hv 21 3 hroom
  obtain ⟨second, hsnd, hbytes2, hroom2⟩ := push_group_spec hv 14 2 hroom1
  obtain ⟨third, hthird, hbytes3, hroom3⟩ := push_group_spec hv 7 1 hroom2
  have hlast : ((v.sshiftRight 0 &&& 127) ||| 128).setWidth 8 = BitVec.ofNat 8 (v.toNat % 128 + 128) := by
    have hdata : (v.sshiftRight 0 &&& 127).toNat = v.toNat % 128 := by
      rw [toNat_and, toNat_sshiftRight hv, show (127 : BitVec 64).toNat = 2 ^ 7 - 1 from rfl,
        Nat.and_two_pow_sub_one_eq_mod, pow_zero, Nat.div_one]
    have hor := septets.or_shiftLeft_eq_add (s := 7) (by rw [hdata]; omega) (1 : BitVec 64)
    rw [show (128 : BitVec 64) = (1 : BitVec 64) <<< 7 from rfl, hor]
    apply eq_of_toNat_eq
    have hmarker : ((1 : BitVec 64) <<< 7).toNat = 128 := by decide
    rw [toNat_setWidth, toNat_add, hdata, hmarker, toNat_ofNat]
    omega
  have hfree : third.bytes.length < third.capacity := by omega
  obtain ⟨stream, hpush, hbytes4, -⟩ := push_spec hfree (BitVec.ofNat 8 (v.toNat % 128 + 128))
  refine ⟨stream, ?_, ?_⟩
  · simp only [write_ref_id, decide_eq_true hv, decide_eq_true hlt, Bool.and_self, check_true, ok_bind, hgrown,
      hfst, hsnd, hthird, hlast, hpush]
  · rw [hbytes4, hbytes3, hbytes2, hbytes1, hbytes, refIdBytes]
    simp

end WriteStream

namespace ReadStream

lemma ref_id_stages_more {b : BitVec 8} (hb : b.toNat < 128) (stages : Nat) (x : Int) (rest : ReadStream) :
    ref_id_stages (stages + 1) (BitVec.ofInt 64 x) (b :: rest) =
      ref_id_stages stages (BitVec.ofInt 64 (b.toNat + x * 128)) rest := by
  have hint : b.toInt = b.toNat := by
    rw [toInt_eq_toNat_cond]
    omega
  rw [ref_id_stages, if_neg (by omega), signExtend, septets.ofInt_shiftLeft, ← ofInt_add, hint]
  rfl

lemma ref_id_stages_last {d : Nat} (hd : d < 128) (stages : Nat) (x : Int) (rest : ReadStream) :
    ref_id_stages (stages + 1) (BitVec.ofInt 64 x) (BitVec.ofNat 8 (d + 128) :: rest) =
      .ok (BitVec.ofInt 64 (d + x * 128), rest) := by
  have hint : (BitVec.ofNat 8 (d + 128)).toInt = d - 128 := by
    rw [toInt_eq_toNat_cond, toNat_ofNat]
    omega
  rw [ref_id_stages, if_pos (by omega), signExtend, septets.ofInt_shiftLeft, ← ofInt_add, hint,
    show (128 : BitVec 64) = BitVec.ofInt 64 128 from rfl, ← ofInt_add]
  congr 3
  ring

/-- A stage adds a written group to the bits above it; where nothing was written
those bits are zero and so are the ones of the group. -/
lemma ref_id_stages_group (n shift : Nat) {needed stages : Nat} (h : needed < stages) (rest : ReadStream) : ∃ left,
    needed ≤ left ∧ ref_id_stages stages (BitVec.ofInt 64 (n / 2 ^ (shift + 7) : Nat)) (refIdGroup n shift ++ rest) =
    ref_id_stages left (BitVec.ofInt 64 (n / 2 ^ shift : Nat)) rest := by
  have hdiv : n / 2 ^ (shift + 7) = n / 2 ^ shift / 128 := by
    rw [pow_add, ← Nat.div_div_eq_div_mul]
    rfl
  rw [refIdGroup, hdiv]
  generalize n / 2 ^ shift = m
  by_cases hwritten : m = 0
  · exact ⟨stages, by omega, by simp [hwritten]⟩
  obtain ⟨left, rfl⟩ : ∃ left, stages = left + 1 := ⟨stages - 1, by omega⟩
  refine ⟨left, by omega, ?_⟩
  have hbyte : (BitVec.ofNat 8 (m % 128)).toNat = m % 128 := by
    rw [toNat_ofNat]
    omega
  rw [if_pos hwritten, List.singleton_append, ref_id_stages_more (by omega), hbyte]
  congr 3
  omega

lemma read_ref_id_bytes {n : Nat} (hn : n < 2 ^ 28) (rest : ReadStream) :
    read_ref_id (refIdBytes n ++ rest) = .ok (BitVec.ofInt 64 n, rest) := by
  have hstart : (0 : BitVec 64) = BitVec.ofInt 64 (n / 2 ^ (21 + 7) : Nat) := by
    rw [Nat.div_eq_of_lt hn]
    rfl
  simp only [read_ref_id, refIdBytes, List.append_assoc]
  rw [hstart]
  obtain ⟨left3, hl3, hgroup21⟩ := ref_id_stages_group n 21 (show 3 < 4 by omega)
    (refIdGroup n 14 ++ (refIdGroup n 7 ++ ([BitVec.ofNat 8 (n % 128 + 128)] ++ rest)))
  obtain ⟨left2, hl2, hgroup14⟩ := ref_id_stages_group n 14 (show 2 < left3 by omega)
    (refIdGroup n 7 ++ ([BitVec.ofNat 8 (n % 128 + 128)] ++ rest))
  obtain ⟨left1, hl1, hgroup7⟩ := ref_id_stages_group n 7 (show 1 < left2 by omega)
    ([BitVec.ofNat 8 (n % 128 + 128)] ++ rest)
  obtain ⟨left0, rfl⟩ : ∃ left0, left1 = left0 + 1 := ⟨left1 - 1, by omega⟩
  rw [hgroup21, hgroup14, hgroup7, List.singleton_append, ref_id_stages_last (by omega)]
  congr 3
  omega

end ReadStream

open septets BitVec

/-- The sizes of the integer types that streams are used with. -/
inductive Width where
  | w8
  | w16
  | w32
  | w64
deriving DecidableEq, Repr

def Width.bits : Width → Nat
  | .w8 => 8
  | .w16 => 16
  | .w32 => 32
  | .w64 => 64

lemma Width.eight_le_bits (width : Width) : 8 ≤ width.bits := by cases width <;> simp [bits]

structure IntType where
  width : Width
  signed : Bool
deriving DecidableEq, Repr

/-- A way to put a value into a stream together with the way to get it back. A value
written with `Write<T>` can be read by the generic loop or by the unrolled reader of
its size. -/
inductive Kind where
  | write (T : IntType) (promoted : T.signed = true ∨ T.width.bits ≤ 16) (unrolled : Bool)
  | raw (size : Width)
  | unsigned (T : IntType)
  | leb128 (T : IntType)
  | sleb128 (T : IntType)
  | ref_id
  | word
deriving DecidableEq, Repr

def Kind.bits : Kind → Nat
  | .write T _ _ => T.width.bits
  | .raw size => size.bits
  | .unsigned T => T.width.bits
  | .leb128 T => T.width.bits
  | .sleb128 T => T.width.bits
  | .ref_id => 64
  | .word => 64

structure Item where
  kind : Kind
  payload : BitVec kind.bits

/-- The values each way of writing is meant for. -/
def Item.Writable : Item → Prop
  | ⟨.write _ _ _, _⟩ => True
  | ⟨.raw _, _⟩ => True
  | ⟨.unsigned T, v⟩ => 0 ≤ value T.signed v
  | ⟨.leb128 T, v⟩ => 0 ≤ value T.signed v
  | ⟨.sleb128 _, _⟩ => True
  | ⟨.ref_id, v⟩ => 0 ≤ v.toInt ∧ v.toInt < 2 ^ 28
  | ⟨.word, _⟩ => True

namespace WriteStream
variable (self : WriteStream)

/-- `Raw<N, T>::Write`. -/
def raw_write : (size : Width) → BitVec size.bits → Checked WriteStream
  | .w8, v => self.write_byte v
  | .w16, v => self.write true (.inl rfl) v
  | .w32, v => self.write true (.inl rfl) v
  | .w64, v => self.write true (.inl rfl) v

def write_item : Item → Checked WriteStream
  | ⟨.write T promoted _, v⟩ => self.write T.signed promoted v
  | ⟨.raw size, v⟩ => self.raw_write size v
  | ⟨.unsigned T, v⟩ => self.write_unsigned T.signed v
  | ⟨.leb128 T, v⟩ => self.write_leb128 T.signed v
  | ⟨.sleb128 _, v⟩ => self.write_sleb128 v
  | ⟨.ref_id, v⟩ => self.write_ref_id v
  | ⟨.word, v⟩ => self.write_word_with_32_bit_writes v

def write_all (items : List Item) : Checked WriteStream :=
  items.foldlM write_item self

end WriteStream

namespace ReadStream

section
variable (self : ReadStream)

/-- The unrolled reader for a size. Single bytes have none. -/
def read_unrolled : (size : Width) → Checked (BitVec size.bits × ReadStream)
  | .w8 => self.read 8
  | .w16 => self.read16
  | .w32 => self.read32
  | .w64 => self.read64

/-- `Raw<N, T>::Read`. -/
def raw_read : (size : Width) → Checked (BitVec size.bits × ReadStream)
  | .w8 => self.read_byte
  | .w16 => self.read16
  | .w32 => self.read32
  | .w64 => self.read64

def read_kind : (kind : Kind) → Checked (BitVec kind.bits × ReadStream)
  | .write T _ unrolled => if unrolled then self.read_unrolled T.width else self.read T.width.bits
  | .raw size => self.raw_read size
  | .unsigned T => self.read_unsigned T.width.bits
  | .leb128 T => self.read_leb128 T.width.bits
  | .sleb128 T => self.read_sleb128 T.width.bits
  | .ref_id => self.read_ref_id
  | .word => self.read_word_with_32_bit_reads

end

def read_all (self : ReadStream) : List Kind → Checked (List Item × ReadStream)
  | [] => .ok ([], self)
  | kind :: kinds => do
    let (payload, self) ← self.read_kind kind
    let (items, self) ← self.read_all kinds
    return (⟨kind, payload⟩ :: items, self)

/-- `bytes` at the front of a stream are read back as `v`, up to their end. -/
def Decodes {α : Type} (read : ReadStream → Checked (α × ReadStream)) (bytes : List (BitVec 8)) (v : α) :
    Prop := ∀ rest : ReadStream, read (bytes ++ rest) = .ok (v, rest)

end ReadStream

open ReadStream

lemma MarkedMore.not_fits (v : Int) (b : BitVec 8) (h : MarkedMore v b) : ¬(-64 ≤ v ∧ v < 64) := h.2

/-- The bytes of `Write<T>` are few enough for the unrolled reader of its size. -/
lemma read_unrolled_spells {width : Width} {bytes : List (BitVec 8)} {v : Int}
    (h : Spells (MarkedLast kEndByteMarker) MarkedMore v bytes) (hlo : -(2 ^ (width.bits - 1)) ≤ v)
    (hhi : v < 2 ^ width.bits) : Decodes (read_unrolled · width) bytes (BitVec.ofInt width.bits v) := by
  have hlen := h.length_le MarkedMore.not_fits
  intro rest
  cases width with
  | w8 => exact read_marked_spells h rest
  | w16 =>
    simp only [Width.bits] at hlo hhi
    exact unrolled_spells h rest (hlen 2 (by omega) (by omega))
  | w32 =>
    simp only [Width.bits] at hlo hhi
    exact unrolled_spells h rest (hlen 4 (by omega) (by omega))
  | w64 =>
    simp only [Width.bits] at hlo hhi
    exact unrolled_spells h rest (hlen 9 (by omega) (by omega))

lemma value_range {w : Nat} (hw : 0 < w) (signed : Bool) (v : BitVec w) :
    -(2 ^ (w - 1)) ≤ value signed v ∧ value signed v < 2 ^ w := by
  have hpow : (2 : Int) ^ w = 2 * 2 ^ (w - 1) := by rw [← pow_succ', Nat.sub_add_cancel hw]
  cases signed with
  | true =>
    have hlo := le_toInt v
    have hhi := toInt_lt (x := v)
    simp only [value, if_true]
    omega
  | false =>
    have hlt : (v.toNat : Int) < 2 ^ w := by exact_mod_cast v.isLt
    simp only [value, Bool.false_eq_true, if_false]
    omega

/-- A written value comes back, from any position in a stream. -/
def Item.RoundTrips (item : Item) : Prop :=
  ∀ self : WriteStream, ∃ bytes, self.Appends (self.write_item item) bytes ∧
    Decodes (read_kind · item.kind) bytes item.payload

section
variable (T : IntType) {v : BitVec T.width.bits}

lemma write_roundTrips (promoted : T.signed = true ∨ T.width.bits ≤ 16) (unrolled : Bool)
    (v : BitVec T.width.bits) : Item.RoundTrips ⟨.write T promoted unrolled, v⟩ := by
  intro self
  obtain ⟨bytes, hspells, happ⟩ := self.write_spells T.width.eight_le_bits T.signed promoted v
  refine ⟨bytes, happ, fun rest => ?_⟩
  obtain ⟨hlo, hhi⟩ := value_range (by have h := T.width.eight_le_bits; omega) T.signed v
  cases unrolled with
  | true =>
    have hread := read_unrolled_spells hspells hlo hhi rest
    rw [ofInt_value] at hread
    exact hread
  | false =>
    have hread := read_marked_spells (w := T.width.bits) hspells rest
    rw [ofInt_value] at hread
    exact hread

/-- `Write<int32_t>` and the like, read by the unrolled reader of the same size. -/
lemma write_signed_unrolled (width : Width) (v : BitVec width.bits) (self : WriteStream) :
    ∃ bytes, self.Appends (self.write true (.inl rfl) v) bytes ∧ Decodes (read_unrolled · width) bytes v :=
  write_roundTrips ⟨width, true⟩ (.inl rfl) true v self

lemma raw_roundTrips (size : Width) (v : BitVec size.bits) : Item.RoundTrips ⟨.raw size, v⟩ := by
  intro self
  cases size with
  | w8 => exact ⟨[v], self.write_byte_appends v, fun _ => rfl⟩
  | w16 => exact write_signed_unrolled .w16 v self
  | w32 => exact write_signed_unrolled .w32 v self
  | w64 => exact write_signed_unrolled .w64 v self

lemma unsigned_roundTrips (hv : 0 ≤ value T.signed v) : Item.RoundTrips ⟨.unsigned T, v⟩ := by
  intro self
  obtain ⟨bytes, hspells, happ⟩ := self.write_unsigned_spells T.width.eight_le_bits T.signed v hv
  refine ⟨bytes, happ, fun rest => ?_⟩
  have hread := read_marked_spells (w := T.width.bits) hspells rest
  rw [ofInt_value] at hread
  exact hread

lemma leb128_roundTrips (hv : 0 ≤ value T.signed v) : Item.RoundTrips ⟨.leb128 T, v⟩ := by
  intro self
  have hw := T.width.eight_le_bits
  obtain ⟨bytes, hspells, happ⟩ := self.write_leb128_spells hw T.signed v hv
  refine ⟨bytes, happ, fun rest => ?_⟩
  have hread := read_leb128_spells (w := T.width.bits) (by omega) hspells (by omega) (by exact_mod_cast v.isLt) rest
  rw [ofInt_natCast, ofNat_toNat, setWidth_eq] at hread
  exact hread

lemma sleb128_roundTrips (v : BitVec T.width.bits) : Item.RoundTrips ⟨.sleb128 T, v⟩ := by
  intro self
  have hw := T.width.eight_le_bits
  obtain ⟨bytes, hspells, happ⟩ := self.write_sleb128_spells hw v
  refine ⟨bytes, happ, fun rest => ?_⟩
  have hread := read_sleb128_spells (by omega) hspells (le_toInt v) toInt_lt rest
  rw [ofInt_toInt] at hread
  exact hread

end

lemma ref_id_roundTrips {v : BitVec 64} (hv : 0 ≤ v.toInt) (hlt : v.toInt < 2 ^ 28) : Item.RoundTrips ⟨.ref_id, v⟩ := by
  intro self
  have hnat : v.toInt = v.toNat := by
    rw [toInt_eq_toNat_cond] at hv ⊢
    omega
  refine ⟨_, self.write_ref_id_appends hv hlt, fun rest => ?_⟩
  have hread := read_ref_id_bytes (n := v.toNat) (by omega) rest
  rw [ofInt_natCast, ofNat_toNat] at hread
  exact hread

lemma join_halves (v : BitVec 64) :
    (v.setWidth 32).setWidth 64 ||| (((v >>> 32).setWidth 32).setWidth 64 <<< 32) = v := by
  have hlo : ((v.setWidth 32).setWidth 64).toNat < 2 ^ 32 := by
    rw [toNat_setWidth]
    omega
  rw [or_shiftLeft_eq_add hlo]
  apply eq_of_toNat_eq
  simp only [toNat_add, toNat_setWidth, toNat_shiftLeft, toNat_ushiftRight, Nat.shiftLeft_eq, Nat.shiftRight_eq_div_pow]
  omega

lemma word_roundTrips (v : BitVec 64) : Item.RoundTrips ⟨.word, v⟩ := by
  intro self
  obtain ⟨lowBytes, ⟨middle, hmiddle, hbytes⟩, hlo⟩ := write_signed_unrolled .w32 (v.setWidth 32) self
  obtain ⟨highBytes, hhi, hhighRead⟩ := write_signed_unrolled .w32 ((v >>> 32).setWidth 32) middle
  refine ⟨lowBytes ++ highBytes, ?_, fun rest => ?_⟩
  · have hwr : self.write_word_with_32_bit_writes v =
        self.write true (.inl rfl) (v.setWidth 32) >>= fun middle =>
          middle.write true (.inl rfl) ((v >>> 32).setWidth 32) := by
      simp [WriteStream.write_word_with_32_bit_writes, List.range_succ]
    show self.Appends (self.write_word_with_32_bit_writes v) _
    rw [hwr]
    exact WriteStream.Appends.trans hmiddle hbytes hhi
  · have hlowRead : read32 (lowBytes ++ (highBytes ++ rest)) = .ok (v.setWidth 32, highBytes ++ rest) :=
      hlo (highBytes ++ rest)
    have hhighRead : read32 (highBytes ++ rest) = .ok ((v >>> 32).setWidth 32, rest) := hhighRead rest
    show read_word_with_32_bit_reads (lowBytes ++ highBytes ++ rest) = .ok (v, rest)
    simp [read_word_with_32_bit_reads, List.range_succ, hlowRead, hhighRead, join_halves]

/-- Each way of writing has a matching way of reading. -/
lemma Item.Writable.roundTrips : ∀ {item : Item}, item.Writable → item.RoundTrips
  | ⟨.write T promoted unrolled, v⟩, _ => write_roundTrips T promoted unrolled v
  | ⟨.raw size, v⟩, _ => raw_roundTrips size v
  | ⟨.unsigned T, _⟩, hv => unsigned_roundTrips T hv
  | ⟨.leb128 T, _⟩, hv => leb128_roundTrips T hv
  | ⟨.sleb128 T, v⟩, _ => sleb128_roundTrips T v
  | ⟨.ref_id, _⟩, hv => ref_id_roundTrips hv.1 hv.2
  | ⟨.word, v⟩, _ => word_roundTrips v

/-- Reading what was written, in the same order, returns the written values and stops
at the end of the written bytes. -/
lemma write_all_read_all (items : List Item) (hitems : ∀ item ∈ items, item.Writable) (self : WriteStream) :
    ∃ bytes, self.Appends (self.write_all items) bytes ∧ Decodes (read_all · (items.map Item.kind)) bytes items := by
  induction items generalizing self with
  | nil => exact ⟨[], .refl self, fun _ => rfl⟩
  | cons item items ih =>
    obtain ⟨first, ⟨middle, hmiddle, hbytes⟩, hfst⟩ := (hitems item (by simp)).roundTrips self
    obtain ⟨second, hsnd, hread⟩ := ih (fun other hmem => hitems other (by simp [hmem])) middle
    refine ⟨first ++ second, ?_, fun rest => ?_⟩
    · exact WriteStream.Appends.trans hmiddle hbytes hsnd
    · have hhead := hfst (second ++ rest)
      have htail := hread rest
      simp [read_all, hhead, htail]

lemma read_unrolled_eq_read {width : Width} {self : ReadStream} {result : BitVec width.bits × ReadStream}
    (h : self.read_unrolled width = .ok result) : self.read width.bits = .ok result := by
  cases width with
  | w8 => exact h
  | w16 => exact unrolled_eq_read_marked (n := 1) h
  | w32 => exact unrolled_eq_read_marked (n := 3) h
  | w64 => exact unrolled_eq_read_marked (n := 8) h

/-- For every sequence of typed writes, on any write stream, the writes succeed and the
corresponding reads on the produced bytes succeed, return the written values and
consume exactly those bytes. An unrolled reader never returns anything but what the
generic one does. -/
theorem stream_round_trip (items : List Item) (hitems : ∀ item ∈ items, item.Writable) (self : WriteStream) :
    (∃ stream bytes, self.write_all items = .ok stream ∧ stream.bytes = self.bytes ++ bytes ∧
      ∀ rest : ReadStream, read_all (bytes ++ rest) (items.map Item.kind) = .ok (items, rest)) ∧
    ∀ (width : Width) (input : ReadStream) (result : BitVec width.bits × ReadStream),
      input.read_unrolled width = .ok result → input.read width.bits = .ok result := by
  obtain ⟨bytes, ⟨stream, hstream, hbytes⟩, hread⟩ := write_all_read_all items hitems self
  exact ⟨⟨stream, bytes, hstream, hbytes, hread⟩, fun _ _ _ => read_unrolled_eq_read⟩

/-- One value of each kind, at the edges of what its encoding is meant for. -/
def boundaryItems : List Item :=
  [⟨.write ⟨.w16, true⟩ (.inl rfl) true, 0x8000⟩, ⟨.write ⟨.w16, false⟩ (.inr (by decide)) false, 0xffff⟩,
    ⟨.raw .w64, 0x7fffffffffffffff⟩, ⟨.unsigned ⟨.w8, false⟩, 0xff⟩, ⟨.leb128 ⟨.w32, true⟩, 0x7fffffff⟩,
    ⟨.sleb128 ⟨.w8, true⟩, 0x80⟩, ⟨.ref_id, 0xfffffff⟩, ⟨.word, 0xffffffffffffffff⟩]

theorem stream_round_trip_boundaryItems :
    (∃ stream bytes, (WriteStream.new 16 (by decide) (by decide)).write_all boundaryItems = .ok stream ∧
      stream.bytes = [] ++ bytes ∧
      ∀ rest : ReadStream, read_all (bytes ++ rest) (boundaryItems.map Item.kind) = .ok (boundaryItems, rest)) := by
  refine (stream_round_trip boundaryItems ?_ (WriteStream.new 16 (by decide) (by decide))).1
  intro item hitem
  simp only [boundaryItems, List.mem_cons, List.not_mem_nil, or_false] at hitem
  rcases hitem with rfl | rfl | rfl | rfl | rfl | rfl | rfl | rfl <;> simp [Item.Writable, value] <;> decide

end dart.datastream
