import DartVM.Fault
import DartVM.Uri.Paths

namespace dart.uri
open List

/-- The character `%`. -/
abbrev percent : Nat := 37

/-- The character `+`. -/
abbrev plus : Nat := 43

/-- `_unreservedTable`: a bit for each character below 128. -/
def unreserved_table : List Nat := [0, 0, 0x6000, 0x03ff, 0xfffe, 0x87ff, 0xfffe, 0x47ff]

/-- `_unreserved2396Table`. -/
def unreserved2396_table : List Nat := [0, 0, 0x6782, 0x03ff, 0xfffe, 0x87ff, 0xfffe, 0x47ff]

/-- `_encodeFullTable`. -/
def encode_full_table : List Nat := [0, 0, 0xffda, 0xafff, 0xffff, 0x87ff, 0xfffe, 0x47ff]

section
variable (table : List Nat)

/-- Whether a character is below 128 and its bit is set in the table. -/
def canonical (char : Nat) : Bool :=
  char < 128 && table.getD (char >>> 4) 0 &&& 1 <<< (char &&& 0x0f) != 0

/-- `hexDigits.codeUnitAt`. -/
def hex_digit (digit : Nat) : Nat :=
  [48, 49, 50, 51, 52, 53, 54, 55, 56, 57, 65, 66, 67, 68, 69, 70].getD digit 0

/-- What `_uriEncode` writes for a byte. -/
def escape (space_to_plus : Bool) (byte : UInt8) : CodeUnits :=
  if canonical table byte.toNat then
    [byte.toNat]
  else if space_to_plus && byte == 32 then
    [plus]
  else
    [percent, hex_digit (byte.toNat >>> 4), hex_digit (byte.toNat &&& 0x0f)]

/-- `utf8.encode` of a string without unpaired surrogates, which is given by its characters. -/
def utf8_encode (text : List Char) : List UInt8 := text.flatMap String.utf8EncodeChar

/-- `_uriEncode` with `utf8`. -/
def uri_encode (text : List Char) (space_to_plus : Bool) : CodeUnits :=
  -- The scan stops at a code unit of 128 or more, so what it passes is one code unit, one byte each.
  let plain := text.takeWhile fun c => canonical table c.toNat
  if plain.length = text.length then
    text.map Char.toNat
  else
    plain.map Char.toNat ++ ((utf8_encode text).drop plain.length).flatMap (escape table space_to_plus)

end

/-- What `_uriDecode` throws: an `ArgumentError` with its message, or a `FormatException` of `utf8`. -/
inductive DecodeError where
  | argument_error (message : String)
  | format_exception
deriving DecidableEq

/-- A step of the loop of `_hexCharPairToByte`. -/
def add_hex_char (byte char_code : Nat) : Except DecodeError Nat :=
  if 0x30 ≤ char_code ∧ char_code ≤ 0x39 then
    .ok (byte * 16 + char_code - 0x30)
  else
    let char_code := char_code ||| 0x20
    if 0x61 ≤ char_code ∧ char_code ≤ 0x66 then
      .ok (byte * 16 + char_code - 0x57)
    else
      .error (.argument_error "Invalid URL encoding")

/-- `_hexCharPairToByte`. -/
def hex_char_pair_to_byte (a b : Nat) : Except DecodeError Nat := do
  let byte ← add_hex_char 0 a
  add_hex_char byte b

/-- The second loop of `_uriDecode`. -/
def unescape (plus_to_space : Bool) : CodeUnits → Except DecodeError (List UInt8)
  | [] => .ok []
  | unit :: text =>
    if 127 < unit then
      .error (.argument_error "Illegal percent encoding in URI")
    else if unit = percent then
      match text with
      | a :: b :: text => do
        let byte ← hex_char_pair_to_byte a b
        let bytes ← unescape plus_to_space text
        return .ofNat byte :: bytes
      | _ => .error (.argument_error "Truncated URI")
    else do
      let bytes ← unescape plus_to_space text
      return (if plus_to_space && unit == plus then 32 else .ofNat unit) :: bytes

/-- `skipBomSingle`. -/
def skip_bom : List UInt8 → List UInt8
  | 0xEF :: 0xBB :: 0xBF :: bytes => bytes
  | bytes => bytes

/-- `utf8.decode`. -/
def utf8_decode (bytes : List UInt8) : Except DecodeError (List Char) :=
  match (skip_bom bytes).toByteArray.utf8Decode? with
  | some text => .ok text.toList
  | none => .error .format_exception

/-- `_uriDecode` of a whole text, with `utf8`. -/
def uri_decode (text : CodeUnits) (plus_to_space : Bool) : Except DecodeError (List Char) :=
  if text.all fun unit => unit ≤ 127 && unit != percent && !(plus_to_space && unit == plus) then
    .ok (text.map Char.ofNat)
  else do
    let bytes ← unescape plus_to_space text
    utf8_decode bytes

/-- `Uri.encodeComponent`. -/
def encode_component (component : List Char) : CodeUnits := uri_encode unreserved2396_table component false

/-- `Uri.encodeQueryComponent`. -/
def encode_query_component (component : List Char) : CodeUnits := uri_encode unreserved_table component true

/-- `Uri.encodeFull`. -/
def encode_full (uri : List Char) : CodeUnits := uri_encode encode_full_table uri false

/-- `Uri.decodeComponent`. -/
def decode_component (encoded : CodeUnits) : Except DecodeError (List Char) := uri_decode encoded false

/-- `Uri.decodeQueryComponent`. -/
def decode_query_component (encoded : CodeUnits) : Except DecodeError (List Char) := uri_decode encoded true

/-- `Uri.decodeFull`. -/
def decode_full (uri : CodeUnits) : Except DecodeError (List Char) := uri_decode uri false

/-- The character U+FEFF, a byte order mark. -/
abbrev bom : Char := Char.ofNat 0xFEFF

lemma utf8_encode_cons (c : Char) (text : List Char) :
    utf8_encode (c :: text) = String.utf8EncodeChar c ++ utf8_encode text := flatMap_cons

lemma utf8_encode_char {c : Char} (h : c.toNat < 128) : String.utf8EncodeChar c = [UInt8.ofNat c.toNat] := by
  have hle : c.val.toNat ≤ 127 := by
    change c.toNat ≤ 127
    omega
  simp only [String.utf8EncodeChar, if_pos hle]
  rfl

variable {table : List Nat} {space : Bool} {bytes : List UInt8}

lemma canonical_lt {char : Nat} (h : canonical table char) : char < 128 := by
  simp only [canonical, Bool.and_eq_true, decide_eq_true_eq] at h
  exact h.1

lemma escape_plain (space : Bool) {plain : List Char} (h : ∀ c ∈ plain, canonical table c.toNat) :
    (utf8_encode plain).length = plain.length ∧
      (utf8_encode plain).flatMap (escape table space) = plain.map Char.toNat := by
  induction plain with
  | nil => exact ⟨rfl, rfl⟩
  | cons c plain ih =>
    obtain ⟨hlen, hmap⟩ := ih fun d hd => h d (mem_cons_of_mem c hd)
    have hc := h c mem_cons_self
    have hlt := canonical_lt hc
    have hbyte : (UInt8.ofNat c.toNat).toNat = c.toNat := by
      simp only [UInt8.toNat_ofNat']
      omega
    rw [utf8_encode_cons, utf8_encode_char hlt, singleton_append, flatMap_cons, hmap, escape, hbyte, if_pos hc]
    exact ⟨congrArg (· + 1) hlen, rfl⟩

section
variable (text : List Char)

/-- The scan for a beginning that needs no escape changes nothing. -/
lemma uri_encode_eq : uri_encode table text space = (utf8_encode text).flatMap (escape table space) := by
  let p : Char → Bool := fun c => canonical table c.toNat
  have hplain := escape_plain space (all_eq_true.mp (all_takeWhile (l := text) (p := p)))
  have happ : utf8_encode text = utf8_encode (text.takeWhile p) ++ utf8_encode (text.dropWhile p) := by
    rw [utf8_encode, utf8_encode, utf8_encode, ← flatMap_append, takeWhile_append_dropWhile]
  unfold uri_encode
  dsimp only
  split
  next heq =>
    have hwhole : text.takeWhile p = text := takeWhile_prefix p |>.eq_of_length heq
    rw [hwhole] at hplain
    exact hplain.2.symm
  next =>
    rw [happ, drop_left' hplain.1, flatMap_append, hplain.2]

lemma unescape_cons {unit : Nat} {text : CodeUnits} (hle : unit ≤ 127) (hne : unit ≠ percent)
    (h : unescape space text = .ok bytes) :
    unescape space (unit :: text) = .ok ((if space && unit == plus then 32 else .ofNat unit) :: bytes) := by
  rw [unescape.eq_def]
  simp [if_neg (not_lt.mpr hle), if_neg hne, h]

/-- A text without its byte order mark. -/
def without_bom : List Char := if text.head? = some bom then text.tail else text

lemma utf8_decode_encode : utf8_decode (utf8_encode text) = .ok (without_bom text) := by
  have hdec (t : List Char) : (utf8_encode t).toByteArray.utf8Decode? = some t.toArray := utf8Decode?_utf8Encode
  unfold without_bom
  split
  next hhead =>
    obtain ⟨t, rfl⟩ := head?_eq_some_iff.mp hhead
    have hskip : skip_bom (utf8_encode (bom :: t)) = utf8_encode t := rfl
    simp [utf8_decode, hskip, hdec]
  next hhead =>
    have hskip : skip_bom (utf8_encode text) = utf8_encode text := by
      unfold skip_bom
      split
      next bytes heq =>
        cases text with
        | nil => cases heq
        | cons c t =>
          -- The first three bytes determine the first character.
          have hfst : String.utf8EncodeChar c ++ utf8_encode t = String.utf8EncodeChar bom ++ bytes := heq
          have hchar := congrArg (fun b => b.toByteArray.utf8DecodeChar? 0) hfst
          simp only [toByteArray_append, ByteArray.utf8DecodeChar?_utf8EncodeChar_append] at hchar
          exact absurd hchar hhead
      next => rfl
    simp [utf8_decode, hskip, hdec]

end

lemma unescape_simple {text : CodeUnits}
    (h : ∀ unit ∈ text, (unit ≤ 127 && unit != percent && !(space && unit == plus)) = true) :
    unescape space text = .ok (utf8_encode (text.map Char.ofNat)) ∧
      without_bom (text.map Char.ofNat) = text.map Char.ofNat := by
  induction text with
  | nil => exact ⟨rfl, rfl⟩
  | cons unit text ih =>
    have hih := ih fun u hu => h u (mem_cons_of_mem unit hu)
    have hunit := h unit mem_cons_self
    simp only [Bool.and_eq_true, decide_eq_true_eq, bne_iff_ne, Bool.not_eq_true'] at hunit
    obtain ⟨⟨hle, hne⟩, hplus⟩ := hunit
    have hascii : ∀ n < 128, (Char.ofNat n).toNat = n := by decide
    have hchar := hascii unit (by omega)
    have hbom : Char.ofNat unit ≠ bom := by
      intro heq
      rw [heq] at hchar
      change 0xFEFF = unit at hchar
      omega
    constructor
    · rw [unescape_cons hle hne hih.1, hplus, map_cons, utf8_encode_cons, utf8_encode_char (by omega), hchar]
      rfl
    · rw [map_cons, without_bom, head?_cons, if_neg (by simpa using hbom)]

/-- The scan for a text without escapes changes nothing. -/
lemma uri_decode_eq (text : CodeUnits) : uri_decode text space = unescape space text >>= utf8_decode := by
  unfold uri_decode
  split
  next hsimple =>
    obtain ⟨hbytes, hbom⟩ := unescape_simple (all_eq_true.mp hsimple)
    rw [hbytes, ok_bind, utf8_decode_encode, hbom]
  next => rfl

-- The decoder must not find `%` or `+` where a character stands for itself.
variable (hesc : (canonical table percent || space && canonical table plus) = false)
include hesc

/-- An escaped byte is read back. -/
lemma unescape_escape {units : CodeUnits} (byte : UInt8) (h : unescape space units = .ok bytes) :
    unescape space (escape table space byte ++ units) = .ok (byte :: bytes) := by
  obtain ⟨hpct, hplus⟩ := Bool.or_eq_false_iff.mp hesc
  unfold escape
  split
  next hc =>
    have hlt := canonical_lt hc
    have hne : byte.toNat ≠ percent := by
      intro heq
      rw [heq, hpct] at hc
      cases hc
    have hspace : (space && byte.toNat == plus) = false := by
      by_contra hnot
      simp only [Bool.not_eq_false, Bool.and_eq_true, beq_iff_eq] at hnot
      rw [hnot.1, ← hnot.2, hc] at hplus
      cases hplus
    rw [singleton_append, unescape_cons (by omega) hne h, hspace]
    simp [UInt8.ofNat_toNat]
  split
  next hs =>
    obtain ⟨rfl, hs⟩ := Bool.and_eq_true_iff.mp hs
    rw [singleton_append, unescape_cons (by decide) (by decide) h, eq_of_beq hs]
    rfl
  next =>
    have hhex : ∀ n < 256, hex_char_pair_to_byte (hex_digit (n >>> 4)) (hex_digit (n &&& 0x0f)) = .ok n := by
      decide +kernel
    simp only [cons_append, nil_append, unescape, hhex _ byte.toNat_lt, h, ok_bind, pure_eq_ok, UInt8.ofNat_toNat]
    rfl

lemma unescape_flatMap_escape (bytes : List UInt8) :
    unescape space (bytes.flatMap (escape table space)) = .ok bytes := by
  induction bytes with
  | nil => rfl
  | cons byte bytes ih => exact unescape_escape hesc byte ih

lemma uri_decode_encode (text : List Char) :
    uri_decode (uri_encode table text space) space = .ok (without_bom text) := by
  rw [uri_decode_eq, uri_encode_eq, unescape_flatMap_escape hesc, ok_bind, utf8_decode_encode]

/-- A byte order mark at the beginning is lost, and nothing else. -/
lemma uri_decode_encode_eq_iff (text : List Char) :
    uri_decode (uri_encode table text space) space = .ok text ↔ text.head? ≠ some bom := by
  rw [uri_decode_encode hesc, Except.ok.injEq]
  unfold without_bom
  split
  next hhead =>
    obtain ⟨t, rfl⟩ := head?_eq_some_iff.mp hhead
    simp
  next hhead => simp [hhead]

omit hesc

/-- The letters, the digits and further characters. -/
abbrev Documented (marks : String) (unit : Nat) : Prop :=
  (Char.ofNat unit).isAlphanum ∨ unit ∈ marks.toList.map Char.toNat

lemma documented_of_mem_uri_encode {marks : String}
    (h : ∀ n < 256, ∀ unit ∈ escape table space (.ofNat n), Documented marks unit) (text : List Char) :
    ∀ unit ∈ uri_encode table text space, Documented marks unit := by
  intro unit hunit
  rw [uri_encode_eq, mem_flatMap] at hunit
  obtain ⟨byte, -, hbyte⟩ := hunit
  have hn := h byte.toNat byte.toNat_lt
  rw [UInt8.ofNat_toNat] at hn
  exact hn unit hbyte

/-- The encoded text has only letters, digits, the documented characters and `%`, and it is decoded to the text
exactly when that does not begin with a byte order mark. -/
theorem decode_encode_iff (s : List Char) :
    (decode_component (encode_component s) = .ok s ↔ s.head? ≠ some bom) ∧
    (decode_query_component (encode_query_component s) = .ok s ↔ s.head? ≠ some bom) ∧
    (decode_full (encode_full s) = .ok s ↔ s.head? ≠ some bom) ∧
    (∀ unit ∈ encode_component s, Documented "-_.!~*'()%" unit) ∧
    (∀ unit ∈ encode_query_component s, Documented "-._~+%" unit) ∧
    ∀ unit ∈ encode_full s, Documented "!#$&'()*+,-./:;=?@_~%" unit := by
  refine ⟨?_, ?_, ?_, ?_, ?_, ?_⟩
  · exact uri_decode_encode_eq_iff rfl s
  · exact uri_decode_encode_eq_iff rfl s
  · exact uri_decode_encode_eq_iff rfl s
  · exact documented_of_mem_uri_encode (by decide +kernel) s
  · exact documented_of_mem_uri_encode (by decide +kernel) s
  · exact documented_of_mem_uri_encode (by decide +kernel) s

/-- U+FEFF is decoded to the empty text. -/
theorem decode_encode_bom : decode_component (encode_component [bom]) = .ok [] := uri_decode_encode rfl [bom]

end dart.uri
