import DartVM.Platform.Utils

namespace dart.datastream
open BitVec

def kDataBitsPerByte : Nat := 7

def kByteMask : Nat := (1 <<< kDataBitsPerByte) - 1

def kMaxUnsignedDataPerByte : Nat := kByteMask

def kMinDataPerByte : Int := -(1 <<< (kDataBitsPerByte - 1) : Nat)

def kMaxDataPerByte : Int := (~~~(BitVec.ofInt 8 kMinDataPerByte) &&& BitVec.ofNat 8 kByteMask).toInt

def kEndByteMarker : BitVec 8 := 255 - BitVec.ofInt 8 kMaxDataPerByte

def kEndUnsignedByteMarker : BitVec 8 := 255 - BitVec.ofNat 8 kMaxUnsignedDataPerByte

/-- If more data follows a given LEB128 byte, the high bit is set. -/
def kMoreDataMask : BitVec 8 := 1 <<< kDataBitsPerByte

/-- For SLEB128, the high bit in the data of the last byte is the sign bit. -/
def kSignMask : BitVec 8 := 1 <<< (kDataBitsPerByte - 1)

@[simp] lemma kDataBitsPerByte_eq : kDataBitsPerByte = 7 := rfl

@[simp] lemma kByteMask_eq : kByteMask = 127 := rfl

@[simp] lemma kMaxUnsignedDataPerByte_eq : kMaxUnsignedDataPerByte = 127 := rfl

@[simp] lemma kMinDataPerByte_eq : kMinDataPerByte = -64 := rfl

@[simp] lemma kMaxDataPerByte_eq : kMaxDataPerByte = 63 := by decide

@[simp] lemma kEndByteMarker_eq : kEndByteMarker = 192 := by decide

@[simp] lemma kEndUnsignedByteMarker_eq : kEndUnsignedByteMarker = 128 := by decide

@[simp] lemma kMoreDataMask_eq : kMoreDataMask = 128 := by decide

@[simp] lemma kSignMask_eq : kSignMask = 64 := by decide

/-- A write stream whose buffer holds everything written so far. The capacity
counts the allocated bytes, of which `bytes` are in use. -/
structure WriteStream where
  initial_size : Nat
  bytes : List (BitVec 8)
  capacity : Nat
  initial_size_pow : ∃ k, initial_size = 2 ^ k
  fits : bytes.length ≤ capacity

namespace WriteStream

/-- An empty stream. Nothing is allocated before the first write. -/
def new (initial_size : Nat) (hpos : 0 < initial_size) (hbound : initial_size ≤ 2 ^ 63) : WriteStream where
  initial_size := utils.round_up_to_power_of_two initial_size
  bytes := []
  capacity := 0
  initial_size_pow := ⟨_, (utils.round_up_to_power_of_two_spec hpos hbound).1⟩
  fits := Nat.le_refl 0

section
variable (self : WriteStream)

def remaining : Nat := self.capacity - self.bytes.length

/-- Resizes the internal buffer. Allocation is assumed to succeed. -/
def realloc (new_size : Nat) (hfits : self.bytes.length ≤ new_size) : WriteStream :=
  { self with capacity := new_size, fits := hfits }

/-- Doubles the buffer, unless that is less than what the next write needs. -/
def increment_size (size_needed : Nat) : Checked Nat :=
  if size_needed > self.capacity then utils.round_up size_needed self.initial_size 0
  else return self.capacity

def ensure_space (size_needed : Nat) : Checked WriteStream := do
  if self.remaining ≥ size_needed then
    return self
  let increment_size ← self.increment_size size_needed
  check (self.capacity + increment_size > self.capacity)
  let grown := self.realloc (self.capacity + increment_size) (self.fits.trans (Nat.le_add_right ..))
  check (grown.remaining ≥ size_needed)
  return grown

/-- `*current_++ = value`, which must stay within the buffer. -/
def push (value : BitVec 8) : Checked WriteStream :=
  if h : self.bytes.length < self.capacity then
    .ok { self with bytes := self.bytes ++ [value], fits := by rw [List.length_append]; exact h }
  else
    .error .out_of_bounds

def write_byte (value : BitVec 8) : Checked WriteStream := do
  let self ← self.ensure_space 1
  self.push value

/-- A write that succeeds and puts exactly `bytes` behind what `self` holds. -/
def Appends (result : Checked WriteStream) (bytes : List (BitVec 8)) : Prop :=
  ∃ stream, result = .ok stream ∧ stream.bytes = self.bytes ++ bytes

end

variable (self : WriteStream)

lemma Appends.refl : self.Appends (.ok self) [] := ⟨self, rfl, by simp⟩

lemma Appends.trans {self middle : WriteStream} {result : Checked WriteStream}
    {next : WriteStream → Checked WriteStream} {first second : List (BitVec 8)}
    (hres : result = .ok middle) (hfst : middle.bytes = self.bytes ++ first)
    (hnext : middle.Appends (next middle) second) : self.Appends (result >>= next) (first ++ second) := by
  obtain ⟨stream, hstream, hsnd⟩ := hnext
  exact ⟨stream, by rw [hres, ok_bind, hstream], by rw [hsnd, hfst, List.append_assoc]⟩

lemma increment_size_spec (size_needed : Nat) :
    ∃ increment, self.increment_size size_needed = .ok increment ∧ size_needed ≤ increment := by
  rw [increment_size]
  split
  · obtain ⟨k, hk⟩ := self.initial_size_pow
    rw [hk]
    exact utils.round_up_two_pow size_needed k
  · exact ⟨self.capacity, rfl, by omega⟩

/-- `EnsureSpace` passes both of its assertions: a buffer grows by at least the
size asked for. -/
lemma ensure_space_spec {size_needed : Nat} (hneeded : 0 < size_needed) : ∃ stream, self.ensure_space size_needed =
    .ok stream ∧ stream.bytes = self.bytes ∧ stream.bytes.length + size_needed ≤ stream.capacity := by
  have hfits := self.fits
  by_cases hroom : self.remaining ≥ size_needed
  · refine ⟨self, by simp [ensure_space, hroom], rfl, ?_⟩
    rw [remaining] at hroom
    omega
  obtain ⟨increment_size, hincrement, hle⟩ := self.increment_size_spec size_needed
  refine ⟨self.realloc (self.capacity + increment_size) (by omega), ?_, rfl, ?_⟩
  · rw [ensure_space, if_neg hroom]
    have hpos : 0 < increment_size := by omega
    have hgrown : size_needed ≤ self.capacity + increment_size - self.bytes.length := by omega
    simp [hincrement, hpos, realloc, remaining, hgrown]
  · simp only [realloc]
    omega

lemma push_spec {self : WriteStream} (h : self.bytes.length < self.capacity) (value : BitVec 8) :
    ∃ stream, self.push value = .ok stream ∧ stream.bytes = self.bytes ++ [value] ∧
      stream.capacity = self.capacity := by
  refine ⟨{ self with bytes := self.bytes ++ [value], fits := by rw [List.length_append]; exact h }, ?_, rfl, rfl⟩
  rw [push, dif_pos h]

lemma write_byte_appends (value : BitVec 8) : self.Appends (self.write_byte value) [value] := by
  obtain ⟨grown, hgrown, hbytes, hroom⟩ := self.ensure_space_spec Nat.one_pos
  obtain ⟨stream, hstream, hpushed, -⟩ := push_spec hroom value
  exact ⟨stream, by rw [write_byte, hgrown, ok_bind, hstream], by rw [hpushed, hbytes]⟩

end WriteStream

/-- What a read stream has not consumed yet: the bytes from `current_` to `end_`. -/
abbrev ReadStream := List (BitVec 8)

def ReadStream.read_byte : ReadStream → Checked (BitVec 8 × ReadStream)
  | [] => .error .assertion
  | b :: rest => .ok (b, rest)

@[simp] lemma ReadStream.read_byte_cons (b : BitVec 8) (rest : List (BitVec 8)) :
    ReadStream.read_byte (b :: rest) = .ok (b, rest) := rfl

section
variable {w : Nat}

/-- What a word stands for in a signed or an unsigned integer type. -/
def value (signed : Bool) (v : BitVec w) : Int := if signed then v.toInt else v.toNat

/-- `v >> count`, arithmetic for the signed types. -/
def shift_right (signed : Bool) (v : BitVec w) (count : Nat) : BitVec w :=
  if signed then v.sshiftRight count else v >>> count

variable (signed : Bool) (v : BitVec w)

@[simp] lemma ofInt_value : BitVec.ofInt w (value signed v) = v := by
  cases signed <;> simp [value]

lemma value_shift_right : value signed (shift_right signed v kDataBitsPerByte) = value signed v / 128 := by
  cases signed with
  | true => simp [value, shift_right, toInt_sshiftRight, Int.shiftRight_eq_div_pow]
  | false => simp [value, shift_right, Nat.shiftRight_eq_div_pow]

/-- The value of a word and its bits agree on the low `k` bits. -/
lemma value_emod_two_pow {k : Nat} (hk : k ≤ w) : value signed v % 2 ^ k = (v.toNat : Int) % 2 ^ k := by
  cases signed with
  | true =>
    have hdvd : (2 ^ k : Int) ∣ ((2 ^ w : Nat) : Int) := by exact_mod_cast Nat.pow_dvd_pow 2 hk
    simp only [value, if_true, toInt_eq_toNat_bmod]
    rw [← Int.emod_emod_of_dvd _ hdvd, Int.bmod_emod, Int.emod_emod_of_dvd _ hdvd]
  | false => rfl

end

namespace WriteStream
variable {w : Nat}

/-- `Write<T>`. The loop compares `v` with a negative bound, which is meant for signed
types and for the unsigned ones that are promoted to `int`. The wider unsigned types
are cast to signed ones before they are written. -/
def write (signed : Bool) (promoted : signed = true ∨ w ≤ 16) (self : WriteStream) (v : BitVec w) :
    Checked WriteStream := do
  if value signed v < kMinDataPerByte ∨ value signed v > kMaxDataPerByte then
    let self ← self.write_byte ((v &&& BitVec.ofNat w kByteMask).setWidth 8)
    write signed promoted self (shift_right signed v kDataBitsPerByte)
  else
    self.write_byte ((v + kEndByteMarker.setWidth w).setWidth 8)
termination_by (value signed v).natAbs
decreasing_by
  rw [value_shift_right]
  simp only [kMinDataPerByte_eq, kMaxDataPerByte_eq] at *
  omega

/-- `WriteUnsigned<T>`. -/
def write_unsigned_loop (signed : Bool) (self : WriteStream) (v : BitVec w) : Checked WriteStream := do
  if value signed v > kMaxUnsignedDataPerByte then
    let self ← self.write_byte ((v &&& BitVec.ofNat w kByteMask).setWidth 8)
    write_unsigned_loop signed self (shift_right signed v kDataBitsPerByte)
  else
    self.write_byte ((v + kEndUnsignedByteMarker.setWidth w).setWidth 8)
termination_by (value signed v).natAbs
decreasing_by
  rw [value_shift_right]
  simp only [kMaxUnsignedDataPerByte_eq] at *
  omega

def write_unsigned (signed : Bool) (self : WriteStream) (v : BitVec w) : Checked WriteStream := do
  check (0 ≤ value signed v)
  self.write_unsigned_loop signed v

/-- The loop of `WriteLEB128`: done when the remainder has no bits set, and every
part before that is marked as a non-final one. -/
def write_leb128_loop (self : WriteStream) (remainder : BitVec w) : Checked WriteStream := do
  let part := (remainder &&& BitVec.ofNat w kByteMask).setWidth 8
  if remainder >>> kDataBitsPerByte = 0 then
    self.write_byte part
  else
    let self ← self.write_byte (part ||| kMoreDataMask)
    self.write_leb128_loop (remainder >>> kDataBitsPerByte)
termination_by remainder.toNat
decreasing_by
  rename_i hmore
  have hpos : remainder.toNat ≠ 0 := by
    intro hzero
    exact hmore (by simp [BitVec.eq_of_toNat_eq (y := 0) (by simpa using hzero)])
  simp only [kDataBitsPerByte_eq, BitVec.toNat_ushiftRight, Nat.shiftRight_eq_div_pow]
  omega

def write_leb128 (signed : Bool) (self : WriteStream) (v : BitVec w) : Checked WriteStream := do
  check (!signed || 0 ≤ v.toInt)
  self.write_leb128_loop v

/-- Sets the most significant bits that a right shift of a negative value leaves
open in C. -/
def sign_extend (w : Nat) : BitVec w := ~~~(((1 : BitVec w) <<< (w - kDataBitsPerByte)) - 1)

/-- The loop of `WriteSLEB128`. -/
def write_sleb128_loop (is_negative : Bool) : Nat → WriteStream → BitVec w → Checked WriteStream
  | 0, _, _ => .error .out_of_fuel
  | fuel + 1, self, remainder => do
    let part := (remainder &&& BitVec.ofNat w kByteMask).setWidth 8
    let shifted := remainder.sshiftRight kDataBitsPerByte
    let remainder := if is_negative then shifted ||| sign_extend w else shifted
    check (decide (remainder.toInt < 0) == is_negative)
    let is_last_part :=
      if is_negative then remainder == ~~~0 && part &&& kSignMask != 0
      else remainder == 0 && part &&& kSignMask == 0
    if is_last_part then
      self.write_byte part
    else
      let self ← self.write_byte (part ||| kMoreDataMask)
      write_sleb128_loop is_negative fuel self remainder

variable (self : WriteStream)

def write_sleb128 (v : BitVec w) : Checked WriteStream :=
  write_sleb128_loop (v.toInt < 0) w self v

variable (v : BitVec 64)

/-- Seven bits of a reference id, unless they and all bits above are zero. -/
def push_group (shift : Nat) : Checked WriteStream :=
  if v.sshiftRight shift ≠ 0 then self.push ((v.sshiftRight shift &&& 127).setWidth 8)
  else .ok self

def write_ref_id : Checked WriteStream := do
  check (0 ≤ v.toInt && v.toInt < 2 ^ 28)
  let self ← self.ensure_space 4
  let self ← self.push_group v 21
  let self ← self.push_group v 14
  let self ← self.push_group v 7
  self.push (((v.sshiftRight 0 &&& 127) ||| 128).setWidth 8)

/-- `Raw<4, uint32_t>::Write` of each half of the word, low half first. -/
def write_word_with_32_bit_writes : Checked WriteStream :=
  (List.range 2).foldlM (fun self j => self.write true (.inl rfl) ((v >>> (j * 32)).setWidth 32)) self

end WriteStream

namespace ReadStream
variable {w : Nat}

/-- `b - end_byte_marker`, computed in the unsigned type of the result. -/
def unmark (w : Nat) (b end_byte_marker : BitVec 8) : BitVec w :=
  b.setWidth w - end_byte_marker.setWidth w

/-- The loop of `Read<T>`, entered with the byte `b` that has just been read. -/
def read_loop (end_byte_marker : BitVec 8) (b : BitVec 8) (r : BitVec w) (s : Nat) :
    ReadStream → Checked (BitVec w × ReadStream)
  | [] => .error .assertion
  | next :: self =>
    let r := r ||| (b.setWidth w <<< s)
    let s := s + kDataBitsPerByte
    if next.toNat ≤ kMaxUnsignedDataPerByte then
      read_loop end_byte_marker next r s self
    else
      .ok (r ||| (unmark w next end_byte_marker <<< s), self)

/-- `Read<T>(end_byte_marker)` for a type `T` of `w` bits. -/
def read_marked (w : Nat) (end_byte_marker : BitVec 8) (self : ReadStream) : Checked (BitVec w × ReadStream) := do
  let (b, self) ← self.read_byte
  if b.toNat > kMaxUnsignedDataPerByte then
    return (unmark w b end_byte_marker, self)
  read_loop end_byte_marker b 0 0 self

/-- `Read<T>`. -/
def read (w : Nat) (self : ReadStream) : Checked (BitVec w × ReadStream) :=
  self.read_marked w kEndByteMarker

/-- `ReadUnsigned<T>`. -/
def read_unsigned (w : Nat) (self : ReadStream) : Checked (BitVec w × ReadStream) :=
  self.read_marked w kEndUnsignedByteMarker

/-- `UNROLLED_BODY` for each of the bit positions `starts`, then `UNROLLED_END`. -/
def unrolled_body (end_byte_marker : BitVec 8) (bit_end : Nat) :
    List Nat → BitVec w → ReadStream → Checked (BitVec w × ReadStream)
  | [], r, self => do
    let (b, self) ← self.read_byte
    check (b.toNat > kMaxUnsignedDataPerByte)
    return (r ||| (unmark w b end_byte_marker <<< bit_end), self)
  | bit_start :: starts, r, self => do
    let (b, self) ← self.read_byte
    if b.toNat > kMaxUnsignedDataPerByte then
      return (r ||| (unmark w b end_byte_marker <<< bit_start), self)
    unrolled_body end_byte_marker bit_end starts (r ||| (b.setWidth w <<< bit_start)) self

/-- `UNROLLED_INIT` and the rest of an unrolled reader. -/
def unrolled (w : Nat) (starts : List Nat) (bit_end : Nat) (end_byte_marker : BitVec 8) (self : ReadStream) :
    Checked (BitVec w × ReadStream) := do
  let (b, self) ← self.read_byte
  if b.toNat > kMaxUnsignedDataPerByte then
    return (unmark w b end_byte_marker, self)
  unrolled_body end_byte_marker bit_end starts (b.setWidth w) self

section
variable (self : ReadStream)

def read16 : Checked (BitVec 16 × ReadStream) :=
  self.unrolled 16 [7] 14 kEndByteMarker

def read32 : Checked (BitVec 32 × ReadStream) :=
  self.unrolled 32 [7, 14, 21] 28 kEndByteMarker

def read64 : Checked (BitVec 64 × ReadStream) :=
  self.unrolled 64 [7, 14, 21, 28, 35, 42, 49, 56] 63 kEndByteMarker

end

/-- The loop shared by `ReadLEB128` and `ReadSLEB128`. Returns the bits read, how
many there are and the last byte. -/
def read_leb128_loop (r : BitVec w) (s : Nat) : ReadStream → Checked ((BitVec w × Nat × BitVec 8) × ReadStream)
  | [] => .error .assertion
  | b :: self => do
    check (s < w)
    let r := r ||| ((b &&& BitVec.ofNat 8 kByteMask).setWidth w <<< s)
    let s := s + kDataBitsPerByte
    if b &&& kMoreDataMask ≠ 0 then
      read_leb128_loop r s self
    else
      check (s < kDataBitsPerByte + w)
      return ((r, s, b), self)

def read_leb128 (w : Nat) (self : ReadStream) : Checked (BitVec w × ReadStream) := do
  let ((r, _, _), self) ← read_leb128_loop 0 0 self
  return (r, self)

/-- If the value is negative and not all of its bits were read, the sign is
extended to the remaining ones. -/
def read_sleb128 (w : Nat) (self : ReadStream) : Checked (BitVec w × ReadStream) := do
  let ((r, s, b), self) ← read_leb128_loop (w := w) 0 0 self
  let sign_bits : BitVec w := if b &&& kSignMask ≠ 0 ∧ s < w then ~~~(((1 : BitVec w) <<< s) - 1) else 0
  return (r ||| sign_bits, self)

/-- The stages of `ReadRefId`. The bytes are read without a check for the end of
the stream; the last stage must find the end marker. -/
def ref_id_stages : Nat → BitVec 64 → ReadStream → Checked (BitVec 64 × ReadStream)
  | 0, _, _ => .error .assertion
  | _ + 1, _, [] => .error .out_of_bounds
  | stages + 1, result, byte :: self =>
    let result := byte.signExtend 64 + (result <<< 7)
    if byte.toInt < 0 then .ok (result + 128, self)
    else ref_id_stages stages result self

def read_ref_id (self : ReadStream) : Checked (BitVec 64 × ReadStream) := ref_id_stages 4 0 self

/-- `Raw<4, uint32_t>::Read` of each half of the word, low half first. -/
def read_word_with_32_bit_reads (self : ReadStream) : Checked (BitVec 64 × ReadStream) :=
  (List.range 2).foldlM (fun (result : BitVec 64 × ReadStream) j => do
    let (partial_value, self) ← result.2.read32
    return (result.1 ||| (partial_value.setWidth 64 <<< (j * 32)), self)) (0, self)

end ReadStream
end dart.datastream
