import DartVM.Convert.Base64Machines

namespace dart.convert.base64
open dart.transducer Nat List UInt8 Uint8Buffer

/-- The bits of the bytes that an encoder holds. -/
def pending_bits (pending : List UInt8) : Nat := pending.foldl (fun bits byte => bits * 256 + byte.toNat) 0

/-- The state that stands for the bytes that an encoder holds. -/
def pending_state (pending : List UInt8) : Nat := encode_state pending.length (pending_bits pending)

/-- `List<int>` of bytes. -/
def ints (bytes : List UInt8) : List Int := bytes.map fun byte => (byte.toNat : Int)

lemma encode_state_eq {count : Nat} (h : count < 4) (bits : Nat) : encode_state count bits = bits * 4 + count := by
  rw [encode_state, ← shiftLeft_add_eq_or_of_lt h, shiftLeft_eq]

variable {pending : List UInt8}

lemma state_count_pending_state (h : pending.length < 3) : state_count (pending_state pending) = pending.length := by
  rw [pending_state, encode_state_eq (by omega), state_count, and_two_pow_sub_one_eq_mod _ 2]
  omega

lemma state_bits_pending_state (h : pending.length < 3) :
    state_bits (pending_state pending) = pending_bits pending := by
  rw [pending_state, encode_state_eq (by omega), state_bits]
  omega

lemma shifted_in_byte {bits : Nat} (hbits : bits < 0x10000) (byte : UInt8) :
    (bits <<< 8 ||| ((byte.toNat : Int) % 0x1000000).toNat) &&& 0xFFFFFF = bits * 256 + byte.toNat := by
  have hlt := byte.toNat_lt
  rw [show ((byte.toNat : Int) % 0x1000000).toNat = byte.toNat by omega, ← shiftLeft_add_eq_or_of_lt hlt,
    and_two_pow_sub_one_eq_mod _ 24]
  omega

variable (alphabet : List Nat)

lemma rfc4648_three (a b c : UInt8) : let bits := (a.toNat * 256 + b.toNat) * 256 + c.toNat
    rfc4648 alphabet [a, b, c] = [alphabet.getD (bits / 2 ^ 18 % 64) 0, alphabet.getD (bits / 2 ^ 12 % 64) 0,
      alphabet.getD (bits / 2 ^ 6 % 64) 0, alphabet.getD (bits % 64) 0] := by
  have ha := a.toNat_lt
  have hb := b.toNat_lt
  have hc := c.toNat_lt
  intro bits
  simp only [rfc4648, symbols, map_cons, map_nil, Symbol.char]
  rw [show bits / 2 ^ 18 % 64 = a.toNat / 4 by omega, show bits / 2 ^ 12 % 64 = a.toNat % 4 * 16 + b.toNat / 16 by omega,
    show bits / 2 ^ 6 % 64 = b.toNat % 16 * 4 + c.toNat / 64 by omega, show bits % 64 = c.toNat % 64 by omega]

lemma rfc4648_two (a b : UInt8) : let bits := a.toNat * 256 + b.toNat
    rfc4648 alphabet [a, b] = [alphabet.getD (bits / 2 ^ 10 % 64) 0, alphabet.getD (bits / 2 ^ 4 % 64) 0,
      alphabet.getD (bits * 2 ^ 2 % 64) 0, padding_char] := by
  have ha := a.toNat_lt
  have hb := b.toNat_lt
  intro bits
  simp only [rfc4648, symbols, map_cons, map_nil, Symbol.char]
  rw [show bits / 2 ^ 10 % 64 = a.toNat / 4 by omega, show bits / 2 ^ 4 % 64 = a.toNat % 4 * 16 + b.toNat / 16 by omega,
    show bits * 2 ^ 2 % 64 = b.toNat % 16 * 4 by omega]

lemma rfc4648_one (a : UInt8) : rfc4648 alphabet [a] =
    [alphabet.getD (a.toNat / 2 ^ 2 % 64) 0, alphabet.getD (a.toNat * 2 ^ 4 % 64) 0, padding_char, padding_char] := by
  have ha := a.toNat_lt
  simp only [rfc4648, symbols, map_cons, map_nil, Symbol.char]
  rw [show a.toNat / 2 ^ 2 % 64 = a.toNat / 4 by omega, show a.toNat * 2 ^ 4 % 64 = a.toNat % 4 * 16 by omega]

lemma pending_bits_append (pending : List UInt8) (byte : UInt8) :
    pending_bits (pending ++ [byte]) = pending_bits pending * 256 + byte.toNat := by
  rw [pending_bits, foldl_append]
  rfl

lemma pending_bits_lt (h : pending.length < 2) : pending_bits pending < 0x10000 := by
  match pending, h with
  | [], _ => decide
  | [a], _ =>
    have ha := a.toNat_lt
    simp only [pending_bits, foldl_cons, foldl_nil]
    omega

variable {alphabet : List Nat}

section
variable {alphabet : List Nat} (halpha : alphabet.length = 64)
include halpha

lemma exists_write_char {output : Uint8Buffer} {n : Nat} (hroom : n + 1 ≤ output.room) (value : Nat) :
    ∃ output', write_char alphabet output value = .ok output' ∧
      output.WritesTo [ofNat (alphabet.getD (value % 64) 0)] output' ∧ n ≤ output'.room := by
  have hlt : value % 64 < alphabet.length := by omega
  obtain ⟨output', hwr, hwrites⟩ := exists_write hroom (alphabet.getD (value % 64) 0)
  refine ⟨output', ?_, hwrites⟩
  rw [write_char, and_two_pow_sub_one_eq_mod _ 6, getElem?_eq_getElem hlt]
  rwa [getD_eq_getElem _ _ hlt] at hwr

/-- The loop writes what the machine does, and ends with the bytes that the machine holds. -/
lemma encode_bytes_spec (bytes : List UInt8) {pending pending' : List UInt8} {out : List Nat} {byte_or : Nat}
    {output : Uint8Buffer} (hpend : pending.length < 3) (hbyte_or : byte_or < 256)
    (hrun : run (encode_step alphabet) pending bytes = some (pending', out)) (hroom : out.length ≤ output.room) :
    ∃ byte_or' : Nat, ∃ output', encode_bytes alphabet (ints bytes) byte_or (pending_bits pending)
      (3 - pending.length) output = .ok ((byte_or' : Int), pending_bits pending', 3 - pending'.length, output') ∧
      byte_or' < 256 ∧ output.WritesTo (out.map ofNat) output' := by
  induction bytes generalizing pending out byte_or output with
  | nil =>
    cases hrun
    exact ⟨byte_or, output, rfl, hbyte_or, .refl output⟩
  | cons byte bytes ih =>
    have hlt := byte.toNat_lt
    have hbyte_or' : byte_or ||| byte.toNat < 256 := or_lt_two_pow hbyte_or hlt
    by_cases hfull : pending.length = 2
    · obtain ⟨a, b, rfl⟩ := length_eq_two.mp hfull
      have ha := a.toNat_lt
      have hb := b.toNat_lt
      have hbits : pending_bits [a, b] = a.toNat * 256 + b.toNat := by simp [pending_bits]
      obtain ⟨_, _, out', hstep, hrun', rfl⟩ := exists_of_run_cons hrun
      cases hstep
      have hlen : (rfc4648 alphabet [a, b, byte] ++ out').length = out'.length + 3 + 1 := by
        rfl
      obtain ⟨output1, hwr1, hwrites1, hroom1⟩ := exists_write_char halpha hroom
        ((pending_bits [a, b] * 256 + byte.toNat) >>> 18)
      obtain ⟨output2, hwr2, hwrites2, hroom2⟩ := exists_write_char halpha hroom1
        ((pending_bits [a, b] * 256 + byte.toNat) >>> 12)
      obtain ⟨output3, hwr3, hwrites3, hroom3⟩ := exists_write_char halpha hroom2
        ((pending_bits [a, b] * 256 + byte.toNat) >>> 6)
      obtain ⟨output4, hwr4, hwrites4, hroom4⟩ := exists_write_char halpha hroom3
        (pending_bits [a, b] * 256 + byte.toNat)
      obtain ⟨byte_or', output', henc, hlt', hwrites⟩ := @ih [] out' (byte_or ||| byte.toNat) output4 (by decide)
        hbyte_or' hrun' hroom4
      refine ⟨byte_or', output', ?_, hlt', ?_⟩
      · rw [ints, map_cons, encode_bytes, if_pos (show 3 - [a, b].length - 1 = 0 from rfl),
          shifted_in_byte (by omega), hwr1, ok_bind, hwr2, ok_bind, hwr3, ok_bind, hwr4, ok_bind]
        exact henc
      · have hall := (((hwrites1.trans hwrites2).trans hwrites3).trans hwrites4).trans hwrites
        simp only [shiftRight_eq_div_pow, hbits] at hall
        rw [map_append, rfc4648_three]
        exact hall
    · obtain ⟨_, _, out', hstep, hrun', rfl⟩ := exists_of_run_cons hrun
      rw [encode_step_pending (by omega)] at hstep
      cases hstep
      have hlen : (pending ++ [byte]).length = pending.length + 1 := length_append
      obtain ⟨byte_or', output', henc, hlt', hwrites⟩ := @ih (pending ++ [byte]) out' (byte_or ||| byte.toNat) output
        (by omega) hbyte_or' hrun' hroom
      refine ⟨byte_or', output', ?_, hlt', hwrites⟩
      rw [ints, map_cons, encode_bytes, if_neg (by omega), shifted_in_byte (pending_bits_lt (by omega))]
      rwa [pending_bits_append, hlen, ← Nat.sub_sub] at henc

lemma write_final_chunk_spec {pending : List UInt8} (hne : pending ≠ []) (hpend : pending.length < 3)
    {output : Uint8Buffer} (hroom : 4 ≤ output.room) :
    ∃ output', write_final_chunk alphabet output pending.length (pending_bits pending) = .ok output' ∧
      output.WritesTo ((rfc4648 alphabet pending).map ofNat) output' := by
  match pending, hne, hpend with
  | [a], _, _ =>
    have hbits : pending_bits [a] = a.toNat := by simp [pending_bits]
    obtain ⟨output1, hwr1, hwrites1, hroom1⟩ := exists_write_char halpha hroom (pending_bits [a] >>> 2)
    obtain ⟨output2, hwr2, hwrites2, hroom2⟩ := exists_write_char halpha hroom1 (pending_bits [a] <<< 4)
    obtain ⟨output3, hwr3, hwrites3, hroom3⟩ := exists_write hroom2 padding_char
    obtain ⟨output4, hwr4, hwrites4, hroom4⟩ := exists_write hroom3 padding_char
    refine ⟨output4, ?_, ?_⟩
    · rw [write_final_chunk, if_pos length_singleton, hwr1, ok_bind, hwr2, ok_bind, hwr3, ok_bind, hwr4]
    · have hall := ((hwrites1.trans hwrites2).trans hwrites3).trans hwrites4
      rw [shiftRight_eq_div_pow, shiftLeft_eq, hbits] at hall
      rw [rfc4648_one]
      exact hall
  | [a, b], _, _ =>
    have hbits : pending_bits [a, b] = a.toNat * 256 + b.toNat := by simp [pending_bits]
    obtain ⟨output1, hwr1, hwrites1, hroom1⟩ := exists_write_char halpha hroom (pending_bits [a, b] >>> 10)
    obtain ⟨output2, hwr2, hwrites2, hroom2⟩ := exists_write_char halpha hroom1 (pending_bits [a, b] >>> 4)
    obtain ⟨output3, hwr3, hwrites3, hroom3⟩ := exists_write_char halpha hroom2 (pending_bits [a, b] <<< 2)
    obtain ⟨output4, hwr4, hwrites4, hroom4⟩ := exists_write hroom3 padding_char
    refine ⟨output4, ?_, ?_⟩
    · rw [write_final_chunk, if_neg (by simp), hwr1, ok_bind, hwr2, ok_bind, hwr3, ok_bind, hwr4]
    · have hall := ((hwrites1.trans hwrites2).trans hwrites3).trans hwrites4
      rw [shiftRight_eq_div_pow, shiftRight_eq_div_pow, shiftLeft_eq, hbits] at hall
      rw [rfc4648_two]
      exact hall

end

variable (encoder : Base64Encoder)

lemma length_create_buffer (n : Nat) : (create_buffer encoder n).length = n := by
  rw [create_buffer]
  split
  · split_ifs with hshort
    · exact length_replicate
    · rw [length_take]
      omega
  · exact length_replicate

/-- What is written for the last slice includes the bytes that are left. -/
def encode_output (alphabet : List Nat) (is_last : Bool) (pending : List UInt8) (out : List Nat) : List Nat :=
  if is_last then out ++ rfc4648 alphabet pending else out

/-- The bytes that are held after a slice. -/
def pending_after (is_last : Bool) (pending : List UInt8) : List UInt8 := if is_last then [] else pending

lemma length_rfc4648_pending (hpend : pending.length < 3) :
    (rfc4648 alphabet pending).length = if pending.length > 0 then 4 else 0 := by
  match pending, hpend with
  | [], _ | [_], _ | [_, _], _ => rfl

variable {out : List Nat} {pending bytes pending' : List UInt8} {output : Uint8Buffer}

lemma length_encode_output
    (hpend : pending.length < 3) (hrun : run (encode_step alphabet) pending bytes = some (pending', out)) (is_last : Bool) :
    (encode_output alphabet is_last pending' out).length = encoded_length (pending_state pending) bytes.length is_last := by
  obtain ⟨pending'', out'', hrun', hlt, hmod, hlen, -⟩ := run_encode_step alphabet hpend bytes
  obtain ⟨rfl, rfl⟩ : pending' = pending'' ∧ out = out'' := by
    rw [hrun] at hrun'
    cases hrun'
    exact ⟨rfl, rfl⟩
  have hrem : ∀ n, n - n / 3 * 3 = n % 3 := fun n => by omega
  rw [encoded_length, state_count_pending_state hpend, hrem, ← hmod, ← hlen, encode_output]
  cases is_last with
  | false => simp
  | true =>
    rw [if_pos rfl, length_append, length_rfc4648_pending hlt]
    by_cases hpos : pending'.length > 0
    · rw [if_pos hpos, if_pos ⟨rfl, hpos⟩]
    · rw [if_neg hpos, if_neg (fun h => hpos h.2), add_zero]

lemma encode_chunk_spec (halpha : alphabet.length = 64) (hpend : pending.length < 3) (hpend' : pending'.length < 3)
    (hrun : run (encode_step alphabet) pending bytes = some (pending', out)) (start : Nat) (is_last : Bool)
    (hroom : (encode_output alphabet is_last pending' out).length ≤ output.room) :
    ∃ output', encode_chunk alphabet (ints bytes) start is_last output (pending_state pending) =
        .ok (output', pending_state (pending_after is_last pending')) ∧
      output.WritesTo ((encode_output alphabet is_last pending' out).map ofNat) output' := by
  have hout : out.length ≤ output.room := by
    refine le_trans ?_ hroom
    rw [encode_output]
    split_ifs
    · rw [length_append]
      exact le_add_right _ _
    · exact le_refl _
  obtain ⟨byte_or, output1, henc, hbyte_or, hwrites⟩ :=
    encode_bytes_spec halpha bytes hpend (show 0 < 256 by decide) hrun hout
  rw [encode_chunk, state_bits_pending_state hpend, state_count_pending_state hpend]
  simp only [cast_zero] at henc
  rw [henc, ok_bind]
  dsimp only
  rw [if_pos (by omega), show 3 - (3 - pending'.length) = pending'.length by omega]
  by_cases hfinal : is_last ∧ 3 - pending'.length < 3
  · obtain ⟨rfl, hshort⟩ := hfinal
    have hne : pending' ≠ [] := by
      rintro rfl
      simp at hshort
    rw [encode_output, if_pos rfl, length_append, length_rfc4648_pending hpend', if_pos (by omega)] at hroom
    have hroom1 : 4 ≤ output1.room := by
      rw [hwrites.room_eq, length_map]
      omega
    obtain ⟨output2, hfinal, hwrites2⟩ := write_final_chunk_spec halpha hne hpend' hroom1
    refine ⟨output2, ?_, ?_⟩
    · rw [if_pos ⟨rfl, hshort⟩, hfinal, ok_bind, pending_after, if_pos rfl]
      rfl
    · rw [encode_output, if_pos rfl, map_append]
      exact hwrites.trans hwrites2
  · cases is_last with
    | false => exact ⟨output1, rfl, hwrites⟩
    | true =>
      obtain rfl : pending' = [] := eq_nil_of_length_eq_zero (by
        have hnot : ¬3 - pending'.length < 3 := fun h => hfinal ⟨rfl, h⟩
        omega)
      refine ⟨output1, rfl, ?_⟩
      rw [encode_output, if_pos rfl]
      simpa [rfc4648, symbols] using hwrites

/-- A slice is encoded into a buffer that is filled exactly. -/
lemma encode_spec (halpha : encoder.alphabet.length = 64) (hpend : pending.length < 3)
    (hstate : encoder.state = pending_state pending)
    (hrun : run (encode_step encoder.alphabet) pending bytes = some (pending', out)) (start : Nat) (is_last : Bool) :
    ∃ output encoder', encode encoder (ints bytes) start is_last =
        .ok (if (encode_output encoder.alphabet is_last pending' out).length > 0 then some output else none, encoder') ∧
      output.Filled ∧ output.contents = (encode_output encoder.alphabet is_last pending' out).map ofNat ∧
      encoder'.alphabet = encoder.alphabet ∧ encoder'.state = pending_state (pending_after is_last pending') := by
  have hlen := length_encode_output hpend hrun is_last
  have hlt : pending'.length < 3 := by
    obtain ⟨pending'', out'', hrun', hlt, -⟩ := run_encode_step encoder.alphabet hpend bytes
    rw [hrun] at hrun'
    cases hrun'
    exact hlt
  generalize hfinal : encode_output encoder.alphabet is_last pending' out = final at *
  have hroom : (Buffer.start (create_buffer encoder final.length)).room = final.length := by
    rw [Buffer.room, Buffer.initial_start, length_create_buffer]
    rfl
  obtain ⟨output, hchunk, hwrites⟩ := encode_chunk_spec halpha hpend hlt hrun start is_last (by rw [hfinal, hroom])
  rw [hfinal] at hwrites
  have hfill : output.Filled := by
    rw [Buffer.filled_iff_room, hwrites.room_eq, hroom, length_map, Nat.sub_self]
  have hcont : output.contents = final.map ofNat := by
    rw [hfill.contents_eq, hwrites.2]
    rfl
  have hints : (ints bytes).length = bytes.length := length_map _
  simp only [encode, hints, hstate, ← hlen, hchunk, ok_bind]
  split_ifs with hpos
  · exact ⟨output, _, rfl, hfill, hcont, rfl, rfl⟩
  · exact ⟨output, _, rfl, hfill, hcont, rfl, rfl⟩

/-- The alphabet of an encoder. -/
def alphabet_of (url_safe : Bool) : List Nat := if url_safe then base64_url_alphabet else base64_alphabet

variable (url_safe : Bool)

lemma length_alphabet_of : (alphabet_of url_safe).length = 64 := by cases url_safe <;> rfl

lemma symbol_char_lt (symbol : Symbol) : symbol.char (alphabet_of url_safe) < 256 := by
  have hall : ∀ char ∈ alphabet_of url_safe, char < 256 := by cases url_safe <;> decide
  cases symbol with
  | pad => exact (by decide : padding_char < 256)
  | sextet value =>
    rw [Symbol.char, getD_eq_getElem?_getD]
    cases hget : (alphabet_of url_safe)[value]? with
    | none => decide
    | some char => exact hall char (mem_of_getElem? hget)

lemma map_toNat_rfc4648 (bytes : List UInt8) :
    ((rfc4648 (alphabet_of url_safe) bytes).map ofNat).map UInt8.toNat = rfc4648 (alphabet_of url_safe) bytes := by
  rw [rfc4648, map_map, map_map]
  exact map_congr_left fun symbol _ => toNat_ofNat (symbol_char_lt url_safe symbol)

lemma symbols_ne_nil {bytes : List UInt8} (h : bytes ≠ []) : symbols bytes ≠ [] := by
  match bytes, h with
  | [_], _ | [_, _], _ | _ :: _ :: _ :: _, _ => simp [symbols]

/-- `base64.encode` gives the encoding of RFC 4648. -/
lemma encoder_convert_eq (bytes : List UInt8) :
    encoder_convert url_safe (ints bytes) = .ok (rfc4648 (alphabet_of url_safe) bytes) := by
  by_cases hnil : bytes = []
  · subst hnil
    rfl
  obtain ⟨pending, out, hrun, -, -, -, henc⟩ :=
    run_encode_step (alphabet_of url_safe) (show ([] : List UInt8).length < 3 by decide) bytes
  have hne : ints bytes ≠ [] := fun h => hnil (map_eq_nil_iff.mp h)
  obtain ⟨output, encoder, hencode, -, hcont, -, -⟩ := encode_spec (new_encoder url_safe false)
    (length_alphabet_of url_safe) (by decide) rfl hrun 0 true
  have hfinal : encode_output (alphabet_of url_safe) true pending out = rfc4648 (alphabet_of url_safe) bytes := henc
  have hpos : (rfc4648 (alphabet_of url_safe) bytes).length > 0 := by
    rw [rfc4648, length_map]
    exact length_pos_iff.mpr (symbols_ne_nil hnil)
  rw [show (new_encoder url_safe false).alphabet = alphabet_of url_safe from rfl, hfinal] at hencode hcont
  rw [if_pos hpos] at hencode
  rw [encoder_convert, if_neg (by rwa [List.isEmpty_iff]), hencode, ok_bind]
  dsimp only
  rw [hcont, map_toNat_rfc4648]

/-- What an encoder has written, followed by the encoding of the bytes it holds and of more bytes. -/
lemma rfc4648_of_run (hpend : pending.length < 3) (hpend' : pending'.length < 3)
    (hrun : run (encode_step alphabet) pending bytes = some (pending', out)) (rest : List UInt8) :
    out ++ rfc4648 alphabet (pending' ++ rest) = rfc4648 alphabet (pending ++ (bytes ++ rest)) := by
  obtain ⟨pending1, out1, hrun1, -, -, -, henc1⟩ := run_encode_step alphabet hpend' rest
  obtain ⟨pending2, out2, hrun2, -, -, -, henc2⟩ := run_encode_step alphabet hpend (bytes ++ rest)
  rw [run_append, hrun, Option.bind_some, hrun1] at hrun2
  cases hrun2
  rw [← henc1, ← henc2, append_assoc]

lemma output_of_encode {final : List Nat} (hfill : output.Filled) (hcont : output.contents = final.map ofNat) :
    (∀ buffer ∈ (if final.length > 0 then some output else none).toList, buffer.Filled) ∧
      ((if final.length > 0 then some output else none).toList.map Buffer.contents).flatten = final.map ofNat := by
  split_ifs with hpos
  · simp [hfill, hcont]
  · obtain rfl : final = [] := eq_nil_of_length_eq_zero (by omega)
    simp

/-- The slices of a list are encoded into buffers that are filled exactly and make up the encoding of the list. -/
lemma encoder_sink_spec (slices : List (Nat × List UInt8)) (last : Nat × List UInt8) (encoder : Base64Encoder)
    (halpha : encoder.alphabet.length = 64) (hpend : pending.length < 3)
    (hstate : encoder.state = pending_state pending) :
    ∃ buffers, encoder_sink (last.map id ints) encoder (slices.map (Prod.map id ints)) = .ok buffers ∧
      (∀ buffer ∈ buffers, buffer.Filled) ∧ (buffers.map Buffer.contents).flatten =
        (rfc4648 encoder.alphabet (pending ++ ((slices.map Prod.snd).flatten ++ last.2))).map ofNat := by
  induction slices generalizing encoder pending with
  | nil =>
    obtain ⟨pending', out, hrun, hpend', -⟩ := run_encode_step encoder.alphabet hpend last.2
    obtain ⟨output, encoder', henc, hfill, hcont, -, -⟩ := encode_spec encoder halpha hpend hstate hrun last.1 true
    obtain ⟨hbuffer, hflatten⟩ := output_of_encode hfill hcont
    refine ⟨_, ?_, hbuffer, ?_⟩
    · rw [map_nil, encoder_sink, Prod.map_snd, Prod.map_fst, id_eq, henc, ok_bind]
    · have htext := rfc4648_of_run hpend hpend' hrun []
      rw [append_nil, append_nil] at htext
      rw [hflatten, map_nil, flatten_nil, nil_append, ← htext]
      rfl
  | cons slice slices ih =>
    obtain ⟨pending', out, hrun, hpend', -⟩ := run_encode_step encoder.alphabet hpend slice.2
    obtain ⟨output, encoder', henc, hfill, hcont, halpha', hstate'⟩ := encode_spec encoder halpha hpend hstate
      hrun slice.1 false
    obtain ⟨hbuffer, hflatten⟩ := output_of_encode hfill hcont
    obtain ⟨buffers, hsink, hbuffers, hrest⟩ := ih encoder' (halpha'.symm ▸ halpha) hpend' hstate'
    generalize (if (encode_output encoder.alphabet false pending' out).length > 0 then some output else none) = buffer
      at henc hbuffer hflatten
    refine ⟨buffer.toList ++ buffers, ?_, ?_, ?_⟩
    · rw [map_cons, encoder_sink, Prod.map_snd, Prod.map_fst, id_eq, henc, ok_bind]
      dsimp only
      rw [hsink, ok_bind]
    · intro buffer hmem
      rw [mem_append] at hmem
      exact hmem.elim (hbuffer buffer) (hbuffers buffer)
    · rw [map_append, flatten_append, hflatten, hrest, halpha', ← map_append, map_cons, flatten_cons, append_assoc]
      exact congrArg (map ofNat) (rfc4648_of_run hpend hpend' hrun _)

end dart.convert.base64
