import DartVM.Convert.Buffer
import Mathlib.Data.Int.Bitwise

namespace dart.convert.base64

/-- `_paddingChar`. -/
def padding_char : Nat := 0x3d

/-- The characters `A` to `Z`, `a` to `z` and `0` to `9`, which both alphabets begin with. -/
def alphanumeric : List Nat := List.range' 0x41 26 ++ List.range' 0x61 26 ++ List.range' 0x30 10

/-- `_base64Alphabet`, which ends in `+/`. -/
def base64_alphabet : List Nat := alphanumeric ++ [0x2b, 0x2f]

/-- `_base64UrlAlphabet`, which ends in `-_`. -/
def base64_url_alphabet : List Nat := alphanumeric ++ [0x2d, 0x5f]

/-- `_Base64Encoder`, with the buffer that `_BufferCachingBase64Encoder` keeps if it is one. -/
structure Base64Encoder where
  alphabet : List Nat
  state : Nat
  caching : Bool
  buffer_cache : Option (List UInt8)

def new_encoder (url_safe caching : Bool) : Base64Encoder :=
  ⟨if url_safe then base64_url_alphabet else base64_alphabet, 0, caching, none⟩

/-- `_encodeState`. -/
def encode_state (count bits : Nat) : Nat := bits <<< 2 ||| count

def state_bits (state : Nat) : Nat := state >>> 2

def state_count (state : Nat) : Nat := state &&& 3

section
variable (encoder : Base64Encoder)

/-- The contents of a new buffer, which may be a view of the cached one. -/
def create_buffer (buffer_length : Nat) : List UInt8 :=
  match encoder.caching, encoder.buffer_cache with
  | true, some buffer => if buffer.length < buffer_length then List.replicate buffer_length 0 else buffer.take buffer_length
  | _, _ => List.replicate buffer_length 0

/-- The cached buffer after a view of it was written to. -/
def update_cache (contents : List UInt8) : Option (List UInt8) :=
  match encoder.caching, encoder.buffer_cache with
  | true, some buffer => if buffer.length < contents.length then some contents
    else some (contents ++ buffer.drop contents.length)
  | true, none => some contents
  | false, cache => cache

section
variable (alphabet : List Nat)

/-- Writes the character of a six-bit value. -/
def write_char (output : Uint8Buffer) (value : Nat) : Except Thrown Uint8Buffer :=
  match alphabet[value &&& 0x3F]? with
  | some char => output.write char
  | none => .error .out_of_bounds

/-- The loop of `encodeChunk`. -/
def encode_bytes (alphabet : List Nat) :
    List Int → Int → Nat → Nat → Uint8Buffer → Except Thrown (Int × Nat × Nat × Uint8Buffer)
  | [], byte_or, bits, expected_chars, output => .ok (byte_or, bits, expected_chars, output)
  | byte :: bytes, byte_or, bits, expected_chars, output =>
    let byte_or := byte_or.lor byte
    -- Of a value that is not a byte only the low bits pass the mask.
    let bits := (bits <<< 8 ||| (byte % 0x1000000).toNat) &&& 0xFFFFFF
    if expected_chars - 1 = 0 then do
      let output ← write_char alphabet output (bits >>> 18)
      let output ← write_char alphabet output (bits >>> 12)
      let output ← write_char alphabet output (bits >>> 6)
      let output ← write_char alphabet output bits
      encode_bytes alphabet bytes byte_or 0 3 output
    else encode_bytes alphabet bytes byte_or bits (expected_chars - 1) output

def write_final_chunk (output : Uint8Buffer) (count bits : Nat) : Except Thrown Uint8Buffer :=
  if count = 1 then do
    let output ← write_char alphabet output (bits >>> 2)
    let output ← write_char alphabet output (bits <<< 4)
    let output ← output.write padding_char
    output.write padding_char
  else do
    let output ← write_char alphabet output (bits >>> 10)
    let output ← write_char alphabet output (bits >>> 4)
    let output ← write_char alphabet output (bits <<< 2)
    output.write padding_char

/-- The search for the value that is not a byte. -/
def not_a_byte : List Int → Nat → Thrown
  | [], i => .argument_error i 0
  | byte :: bytes, i => if byte < 0 ∨ byte > 255 then .argument_error i byte else not_a_byte bytes (i + 1)

/-- `encodeChunk`, for the part of a list from `start` on. -/
def encode_chunk (bytes : List Int) (start : Nat) (is_last : Bool) (output : Uint8Buffer)
    (state : Nat) : Except Thrown (Uint8Buffer × Nat) := do
  let (byte_or, bits, expected_chars, output) ←
    encode_bytes alphabet bytes 0 (state_bits state) (3 - state_count state) output
  if 0 ≤ byte_or ∧ byte_or ≤ 255 then
    if is_last ∧ expected_chars < 3 then
      let output ← write_final_chunk alphabet output (3 - expected_chars) bits
      .ok (output, 0)
    else .ok (output, encode_state (3 - expected_chars) bits)
  else .error (not_a_byte bytes start)

end

/-- The length that `encode` computes beforehand. -/
def encoded_length (state length : Nat) (is_last : Bool) : Nat :=
  let byte_count := state_count state + length
  let full_chunks := byte_count / 3
  let partial_chunk_length := byte_count - full_chunks * 3
  if is_last ∧ partial_chunk_length > 0 then full_chunks * 4 + 4 else full_chunks * 4

/-- `encode`, which returns the buffer it has filled. There is no output if its length is zero. -/
def encode (bytes : List Int) (start : Nat) (is_last : Bool) : Except Thrown (Option Uint8Buffer × Base64Encoder) := do
  let buffer_length := encoded_length encoder.state bytes.length is_last
  let output := .start (create_buffer encoder buffer_length)
  let (output, state) ← encode_chunk encoder.alphabet bytes start is_last output encoder.state
  let encoder := { encoder with state := state, buffer_cache := update_cache encoder output.contents }
  if buffer_length > 0 then .ok (some output, encoder) else .ok (none, encoder)

end

/-- `Base64Encoder.convert`. -/
def encoder_convert (url_safe : Bool) (input : List Int) : Except Thrown (List Nat) :=
  if input.isEmpty then .ok []
  else do
    let (buffer, _) ← encode (new_encoder url_safe false) input 0 true
    match buffer with
    | some output => .ok (output.contents.map UInt8.toNat)
    | none => .error .out_of_bounds

/-- `_Base64EncoderSink.addSlice` for every slice, with where it starts, and for the last one; `add` and `close` pass on a
whole list and an empty one. -/
def encoder_sink (last : Nat × List Int) (encoder : Base64Encoder) :
    List (Nat × List Int) → Except Thrown (List Uint8Buffer)
  | [] => do
    let (buffer, _) ← encode encoder last.2 last.1 true
    .ok buffer.toList
  | source :: sources => do
    let (buffer, encoder) ← encode encoder source.2 source.1 false
    let buffers ← encoder_sink last encoder sources
    .ok (buffer.toList ++ buffers)

def invalid : Int := -2

def padding : Int := -1

/-- `_inverseAlphabet`. -/
def inverse_alphabet : List Int :=
  let n := invalid
  let p := padding
  [n, n, n, n, n, n, n, n, n, n, n, n, n, n, n, n,
   n, n, n, n, n, n, n, n, n, n, n, n, n, n, n, n,
   n, n, n, n, n, p, n, n, n, n, n, 62, n, 62, n, 63,
   52, 53, 54, 55, 56, 57, 58, 59, 60, 61, n, n, n, p, n, n,
   n, 0, 1, 2, 3, 4, 5, 6, 7, 8, 9, 10, 11, 12, 13, 14,
   15, 16, 17, 18, 19, 20, 21, 22, 23, 24, 25, n, n, n, n, 63,
   n, 26, 27, 28, 29, 30, 31, 32, 33, 34, 35, 36, 37, 38, 39, 40,
   41, 42, 43, 44, 45, 46, 47, 48, 49, 50, 51, n, n, n, n, n]

def char_percent : Nat := 0x25

def char_3 : Nat := 0x33

def char_d : Nat := 0x64

/-- `_encodeCharacterState`. -/
def encode_character_state (count bits : Nat) : Int := (bits <<< 2 ||| count : Nat)

def state_characters (state : Int) : Nat := state.toNat &&& 3

def state_character_bits (state : Int) : Nat := state.toNat >>> 2

section
variable (expected_padding : Nat)

def encode_padding_state : Int := -expected_padding - 1

def state_padding (state : Int) : Nat := (-state - 1).toNat

def has_seen_padding (state : Int) : Bool := state < 0

/-- The part of an iteration of `_checkPadding` that expects `D` or `d`. The result says if the loop goes on. -/
def check_char_d : List Nat → Nat × List Nat × Bool
  | [] => (expected_padding, [], false)
  | char :: input =>
    if (char ||| 0x20) ≠ char_d then (expected_padding, char :: input, false)
    else (expected_padding - 1, input, !input.isEmpty)

/-- The part of an iteration of `_checkPadding` that expects the rest of `%3D`. -/
def check_partial_padding (input : List Nat) : Nat × List Nat × Bool :=
  let expected_partial_padding := if expected_padding > 3 then expected_padding - 3 else expected_padding
  if expected_partial_padding = 2 then
    match input with
    | [] => (expected_padding, [], false)
    | char :: input =>
      if char ≠ char_3 then (expected_padding, char :: input, false) else check_char_d (expected_padding - 1) input
  else check_char_d expected_padding input

end

/-- The loop of `_checkPadding`, with the characters that are left. -/
def check_padding_loop : Nat → Nat → List Nat → Nat × List Nat
  | 0, expected_padding, input => (expected_padding, input)
  | fuel + 1, expected_padding, input =>
    match input with
    | [] => (expected_padding, [])
    | char :: input' =>
      if expected_padding = 0 then (0, input)
      else if expected_padding = 3 then
        if char = padding_char then (0, input')
        else if char = char_percent then
          if input'.isEmpty then (2, [])
          else
            let (expected_padding, input, more) := check_partial_padding 2 input'
            if more then check_padding_loop fuel expected_padding input else (expected_padding, input)
        else (3, input)
      else
        let (expected_padding, input, more) := check_partial_padding expected_padding input
        if more then check_padding_loop fuel expected_padding input else (expected_padding, input)

/-- `_checkPadding`, for the characters from `start` on. -/
def check_padding (input : List Nat) (start : Nat) (state : Int) : Except Thrown Int :=
  if input.isEmpty then .ok state
  else
    let (expected_padding, rest) := check_padding_loop (input.length + 1) (state_padding state) input
    if rest.isEmpty then .ok (encode_padding_state expected_padding)
    else .error (.format_exception "Invalid padding character" (start + (input.length - rest.length)))

/-- The search for the character that is not ASCII. -/
def not_ascii : List Nat → Nat → Thrown
  | [], i => .format_exception "Invalid character" i
  | char :: input, i => if char > 127 then .format_exception "Invalid character" i else not_ascii input (i + 1)

/-- `inverseAlphabet[char & asciiMask]`. -/
def masked_code (char : Nat) : Int := inverse_alphabet.getD (char &&& 127) invalid

/-- Writes the bytes of the characters before a padding. -/
def write_partial_group (bits count i : Nat) (output : Uint8Buffer) : Except Thrown Uint8Buffer :=
  if count = 3 then
    if bits &&& 0x03 ≠ 0 then .error (.format_exception "Invalid encoding before padding" i)
    else do
      let output ← output.write (bits >>> 10)
      output.write (bits >>> 2)
  else if bits &&& 0x0F ≠ 0 then .error (.format_exception "Invalid encoding before padding" i)
  else output.write (bits >>> 4)

/-- The loop of `decodeChunk`. It ends with a state, or leaves the loop at a character that is not ASCII. -/
def decode_chars : List Nat → Nat → Nat → Nat → Nat → Uint8Buffer → Except Thrown (Option Int × Uint8Buffer)
  | [], _, char_or, bits, count, output =>
    .ok (if char_or ≤ 127 then some (encode_character_state count bits) else none, output)
  | char :: input, i, char_or, bits, count, output => do
    let char_or := char_or ||| char
    let code := masked_code char
    if code ≥ 0 then
      let bits := (bits <<< 6 ||| code.toNat) &&& 0xFFFFFF
      let count := (count + 1) &&& 3
      if count = 0 then
        let output ← output.write ((bits >>> 16) &&& 0xFF)
        let output ← output.write ((bits >>> 8) &&& 0xFF)
        let output ← output.write (bits &&& 0xFF)
        decode_chars input (i + 1) char_or 0 count output
      else decode_chars input (i + 1) char_or bits count output
    else if code = padding ∧ count > 1 then
      if char_or > 127 then .ok (none, output)
      else
        let output ← write_partial_group bits count i output
        let expected_padding := (3 - count) * 3 + if char = char_percent then 2 else 0
        let state ← check_padding input (i + 1) (encode_padding_state expected_padding)
        .ok (some state, output)
    else .error (.format_exception "Invalid character" i)

section
variable (input : List Nat)

/-- `decodeChunk`, for the characters from `start` on. -/
def decode_chunk (start : Nat) (output : Uint8Buffer) (state : Int) : Except Thrown (Int × Uint8Buffer) := do
  let (result, output) ← decode_chars input start 0 (state_character_bits state) (state_characters state) output
  match result with
  | some state => .ok (state, output)
  | none => .error (not_ascii input start)

/-- Goes back by one character if the last one is to be skipped. There may be none before it. -/
def skip_back (skip : Bool) (char : Nat) (before : List Nat) : Option (Nat × List Nat) :=
  if skip then
    match before with
    | [] => none
    | char :: before => some (char, before)
  else some (char, before)

/-- The loop of `_trimPaddingChars`, for the characters before an index, the last one first. -/
def trim_padding_loop : Nat → List Nat → Nat → Nat → Nat
  | 0, _, _, new_end => new_end
  | _ + 1, [], _, new_end => new_end
  | fuel + 1, char :: before, padding, new_end =>
    if padding < 2 then
      if char = padding_char then trim_padding_loop fuel before (padding + 1) before.length
      else
        match (skip_back ((char ||| 0x20) = char_d) char before).bind fun (char, before) =>
            skip_back (char = char_3) char before with
        | none => new_end
        | some (char, before) =>
          if char = char_percent then trim_padding_loop fuel before (padding + 1) before.length else new_end
    else new_end

/-- `_trimPaddingChars`, as the number of characters before the padding. -/
def trim_padding_chars : Nat :=
  trim_padding_loop (input.length + 1) input.reverse 0 input.length

section
variable (state : Int)

/-- The length that `_allocateBuffer` computes beforehand. -/
def decoded_length : Nat :=
  let padding_start := trim_padding_chars input
  let length := state_characters state + padding_start
  let remainder_length := length &&& 3
  if remainder_length ≠ 0 ∧ padding_start < input.length then (length >>> 2) * 3 + (remainder_length - 1)
  else (length >>> 2) * 3

/-- `_allocateBuffer`. -/
def allocate_buffer : List UInt8 := List.replicate (decoded_length input state) 0

/-- `decode`, for the characters from `start` on. There is no buffer for what follows the padding. -/
def decode (input : List Nat) (start : Nat) : Except Thrown (Option Uint8Buffer × Int) :=
  if has_seen_padding state then do
    let state ← check_padding input start state
    .ok (none, state)
  else if input.isEmpty then .ok (some (.start []), state)
  else do
    let (state, output) ← decode_chunk input start (.start (allocate_buffer input state)) state
    .ok (some output, state)

def close (offset : Option Nat) : Except Thrown Int :=
  if state < encode_padding_state 0 then .error (.format_exception "Missing padding character" offset)
  else if state > 0 then .error (.format_exception "Invalid length, must be multiple of four" offset)
  else .ok (encode_padding_state 0)

end

/-- `Base64Decoder.convert`, and so `Base64Codec.decode`. -/
def decoder_convert : Except Thrown (List UInt8) :=
  if input.isEmpty then .ok []
  else do
    let (buffer, state) ← decode 0 input 0
    let _ ← close state input.length
    match buffer with
    | some output => .ok output.contents
    | none => .error .out_of_bounds

end

/-- `_Base64DecoderSink.addSlice`, for the characters of a slice and where it starts: the buffers that are handed on,
the new state, and whether the output is closed. -/
def decoder_add_slice (state : Int) (slice : Nat × List Nat) (is_last : Bool) :
    Except Thrown (List Uint8Buffer × Int × Bool) :=
  if slice.2.isEmpty then .ok ([], state, false)
  else do
    let (buffer, state) ← decode state slice.2 slice.1
    if is_last then
      let state ← close state (some (slice.1 + slice.2.length))
      .ok (buffer.toList, state, true)
    else .ok (buffer.toList, state, false)

/-- How a conversion ends. -/
inductive Ending where
  | close
  | last_slice (slice : Nat × List Nat)
  | unfinished

/-- The characters that come with the ending. -/
def Ending.text : Ending → List Nat
  | last_slice slice => slice.2
  | _ => []

/-- `_Base64DecoderSink` for every slice, and to the end of the conversion. -/
def decoder_sink (state : Int) : List (Nat × List Nat) → Ending → Except Thrown (List Uint8Buffer × Bool)
  | [], .close => do
    let _ ← close state none
    .ok ([], true)
  | [], .last_slice slice => do
    let (buffers, _, closed) ← decoder_add_slice state slice true
    .ok (buffers, closed)
  | [], .unfinished => .ok ([], false)
  | slice :: slices, ending => do
    let (buffers, state, _) ← decoder_add_slice state slice false
    let (more, closed) ← decoder_sink state slices ending
    .ok (buffers ++ more, closed)

end dart.convert.base64
