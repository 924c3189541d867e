import Mathlib.Data.List.Forall2
import DartVM.Convert.Base64Encoding
import DartVM.Convert.Base64Lengths

namespace dart.convert.base64
open dart.transducer DecoderState List Buffer Option

section
variable {pending : List Nat} {state state' : DecoderState} {out : List UInt8}

section
variable (h : pending.length < 4)
include h

lemma state_characters_state : state_characters (characters pending).state = pending.length := by
  rw [state, encode_character_state_eq h, state_characters, Nat.and_two_pow_sub_one_eq_mod _ 2]
  omega

lemma state_character_bits_state : state_character_bits (characters pending).state = sextet_bits pending := by
  rw [state, encode_character_state_eq h, state_character_bits]
  omega

lemma has_seen_padding_characters : has_seen_padding (characters pending).state = false := by
  rw [state, encode_character_state_eq h]
  exact decide_eq_false (by omega)

end

lemma has_seen_padding_padding (expected : Nat) : has_seen_padding (DecoderState.padding expected).state = true := by
  rw [state, encode_padding_state]
  exact decide_eq_true (by omega)

lemma valid_of_decode_step {char : Nat}
    (h : decode_step state char = some (state', out)) (hok : state.Valid) : state'.Valid := by
  cases state with
  | padding expected =>
    obtain ⟨expected', hstep, heq⟩ := map_eq_some_iff.mp h
    cases heq
    have hcases := eq_of_padding_step hstep
    show expected' ≤ 5
    omega
  | characters pending =>
    obtain ⟨hlen, hlt⟩ := hok
    cases hval : sextet_value char with
    | some value =>
      have hvalue_lt := (sextet_value_eq_some_iff.mp hval).1
      by_cases hfull : pending.length = 3
      · obtain ⟨a, b, c, rfl⟩ := length_eq_three.mp hfull
        rw [decode_step_full hval] at h
        cases h
        exact ⟨by decide, by simp⟩
      rw [decode_step_value hval (by omega)] at h
      cases h
      refine ⟨by simp; omega, fun value' hmem => ?_⟩
      obtain hmem | hmem := mem_append.mp hmem
      · exact hlt value' hmem
      · rwa [mem_singleton.mp hmem]
    | none =>
      rw [decode_step_no_value hval] at h
      split_ifs at h
      · obtain ⟨a, b, -, -, rfl, -⟩ | ⟨a, b, c, -, -, rfl, -⟩ := eq_of_begin_padding h
        · show 3 ≤ 5
          omega
        · show 0 ≤ 5
          omega
      · obtain ⟨a, b, -, -, rfl, -⟩ | ⟨a, b, c, -, -, rfl, -⟩ := eq_of_begin_padding h
        · show 5 ≤ 5
          omega
        · show 2 ≤ 5
          omega

lemma valid_of_run {text : List Nat}
    (h : run decode_step state text = some (state', out)) (hok : state.Valid) : state'.Valid :=
  run_preserves valid_of_decode_step h hok

lemma valid_start : (characters []).Valid := ⟨by decide, by simp⟩

/-- `close` accepts the states in which a text may end. -/
lemma close_spec {state : DecoderState} (hok : state.Valid) (offset : Option Nat) :
    state.Complete ∧ close state.state offset = .ok (encode_padding_state 0) ∨
      ¬state.Complete ∧ ∃ message, close state.state offset = .error (.format_exception message offset) := by
  cases state with
  | characters pending =>
    rw [state, encode_character_state_eq hok.1, close, encode_padding_state, if_neg (by omega)]
    cases pending with
    | nil => exact .inl ⟨rfl, rfl⟩
    | cons value pending =>
      refine .inr ⟨cons_ne_nil _ _, _, if_pos ?_⟩
      rw [length_cons]
      omega
  | padding expected =>
    rw [state, close, encode_padding_state, encode_padding_state]
    by_cases h0 : expected = 0
    · subst h0
      exact .inl ⟨rfl, rfl⟩
    · exact .inr ⟨h0, _, if_pos (by omega)⟩

end

section

lemma Encodes.unique {text : List Nat} {bytes bytes' : List UInt8} (h : Encodes text bytes) (h' : Encodes text bytes') :
    bytes = bytes' := by
  obtain ⟨state, hrun, -⟩ := run_iff_encodes.mpr h
  obtain ⟨state', hrun', -⟩ := run_iff_encodes.mpr h'
  exact (Prod.mk.inj (some.inj (hrun.symm.trans hrun'))).2

lemma not_encodes_of_run {text : List Nat} (h : run decode_step (.characters []) text = none ∨
      ∃ state out, run decode_step (.characters []) text = some (state, out) ∧ ¬state.Complete)
    (bytes : List UInt8) : ¬Encodes text bytes := by
  intro henc
  obtain ⟨state, hrun, hcomp⟩ := run_iff_encodes.mpr henc
  obtain hnone | ⟨state', out, hsome, hnot⟩ := h
  · rw [hrun] at hnone
    cases hnone
  · obtain ⟨rfl, -⟩ := Prod.mk.inj (some.inj (hrun.symm.trans hsome))
    exact hnot hcomp

/-- The search ends with an exception, wherever the character is. -/
lemma exists_not_ascii (input : List Nat) (i : Nat) : ∃ message offset, not_ascii input i = .format_exception
    message offset := by
  induction input generalizing i with
  | nil => exact ⟨_, _, rfl⟩
  | cons char input ih =>
    rw [not_ascii]
    split_ifs
    · exact ⟨_, _, rfl⟩
    · exact ih (i + 1)

variable {state : DecoderState}

/-- What `decode` does when the machine accepts a slice, or refuses it. -/
lemma decode_spec (hok : state.Valid) (input : List Nat) (start : Nat) :
    (∃ state' out buffer, run decode_step state input = some (state', out) ∧
      decode state.state input start = .ok (buffer, state'.state) ∧ (∀ output ∈ buffer, output.Filled) ∧
      (buffer.toList.map contents).flatten = out ∧ (has_seen_padding state.state = false → buffer ≠ none)) ∨
    run decode_step state input = none ∧
      ∃ message offset, decode state.state input start = .error (.format_exception message offset) := by
  cases state with
  | padding expected =>
    have hchk := check_padding_spec hok input start
    rw [decode, if_pos (has_seen_padding_padding expected)]
    cases hrun : run decode_step (.padding expected) input with
    | none =>
      rw [hrun] at hchk
      obtain ⟨message, offset, hchk⟩ := hchk
      refine .inr ⟨rfl, message, offset, ?_⟩
      rw [state, hchk, error_bind]
    | some r =>
      obtain ⟨state', out⟩ := r
      rw [hrun] at hchk
      obtain ⟨rfl, -⟩ := paddingText_of_run hrun
      refine .inl ⟨state', [], none, rfl, ?_, by simp, rfl, ?_⟩
      · rw [state, hchk, ok_bind]
      · rw [has_seen_padding_padding]
        simp
  | characters pending =>
    have hcnt := state_characters_state hok.1
    by_cases hempty : input = []
    · subst hempty
      refine .inl ⟨_, [], some (.start []), rfl, ?_, ?_, rfl, by simp⟩
      · rfl
      · simp [Filled]
    have hroom : demand pending.length input ≤
        (Buffer.start (allocate_buffer input (DecoderState.characters pending).state)).room := by
      have hle := demand_le_decoded_length input (hcnt ▸ hok.1)
      rw [hcnt] at hle
      simpa [room, allocate_buffer] using hle
    have hdec := decode_chars_spec input hok start 0 hroom
    have hchunk : decode (characters pending).state input start = (do
        let r ← decode_chunk input start
          (.start (allocate_buffer input (characters pending).state)) (characters pending).state
        .ok (some r.2, r.1)) := by
      rw [decode, has_seen_padding_characters hok.1, if_neg Bool.false_ne_true, if_neg (by rwa [List.isEmpty_iff])]
    rw [hchunk, decode_chunk, hcnt, state_character_bits_state hok.1]
    rw [expected_run, if_pos (by decide)] at hdec
    cases hrun : run decode_step (.characters pending) input with
    | none =>
      rw [hrun] at hdec
      obtain ⟨message, offset, hres⟩ | ⟨output', hres⟩ := hdec
      · exact .inr ⟨rfl, message, offset, by rw [hres, error_bind, error_bind]⟩
      · obtain ⟨message, offset, hascii⟩ := exists_not_ascii input start
        exact .inr ⟨rfl, message, offset, by rw [hres, ok_bind]; dsimp only; rw [hascii, error_bind]⟩
    | some r =>
      obtain ⟨state', out⟩ := r
      rw [hrun] at hdec
      obtain ⟨output', hres, hwrites⟩ := hdec
      have hfill : output'.Filled := by
        rw [filled_iff_room, hwrites.room_eq, room, ← decoded_length_of_run hok.1 hrun hcnt]
        simp [allocate_buffer]
      refine .inl ⟨state', out, some output', rfl, by rw [hres]; rfl, ?_, ?_, by simp⟩
      · simpa using hfill
      · simpa [hfill.contents_eq] using hwrites.2

/-- Whether the output is closed at the end, if nothing is thrown: `addSlice` returns early for an empty slice. -/
def Ending.closes : Ending → Bool
  | close => true
  | last_slice slice => !slice.2.isEmpty
  | unfinished => false

/-- The text of a conversion. -/
def text_of (slices : List (Nat × List Nat)) (ending : Ending) : List Nat := (slices.map Prod.snd).flatten ++ ending.text

/-- The slices are decoded as the text they make up, which must be complete if the output is closed. -/
lemma decoder_sink_spec (slices : List (Nat × List Nat)) (ending : Ending) (hok : state.Valid) :
    (∃ state' out buffers, run decode_step state (text_of slices ending) = some (state', out) ∧
      decoder_sink state.state slices ending = .ok (buffers, ending.closes) ∧ (∀ output ∈ buffers, output.Filled) ∧
      (buffers.map contents).flatten = out ∧ (ending.closes = true → state'.Complete)) ∨
    (run decode_step state (text_of slices ending) = none ∨ ending.closes = true ∧
      ∃ state' out, run decode_step state (text_of slices ending) = some (state', out) ∧ ¬state'.Complete) ∧
      ∃ message offset, decoder_sink state.state slices ending = .error (.format_exception message offset) := by
  induction slices generalizing state with
  | nil =>
    cases ending with
    | unfinished => exact .inl ⟨state, [], [], rfl, rfl, by simp, rfl, nofun⟩
    | close =>
      rw [decoder_sink]
      obtain ⟨hcomp, hclose⟩ | ⟨hcomp, message, hclose⟩ := close_spec hok none
      · exact .inl ⟨state, [], [], rfl, by rw [hclose]; rfl, by simp, rfl, fun _ => hcomp⟩
      · exact .inr ⟨.inr ⟨rfl, state, [], rfl, hcomp⟩, message, none, by rw [hclose]; rfl⟩
    | last_slice slice =>
      obtain ⟨start, string⟩ := slice
      rw [decoder_sink, decoder_add_slice]
      by_cases hempty : string = []
      · subst hempty
        exact .inl ⟨state, [], [], rfl, rfl, by simp, rfl, nofun⟩
      rw [if_neg (by rwa [List.isEmpty_iff]), show text_of [] (.last_slice (start, string)) = string from rfl]
      have hcloses : Ending.closes (.last_slice (start, string)) = true := by simpa [Ending.closes] using hempty
      obtain ⟨state', out, buffer, hrun, hdec, hfill, hcont, -⟩ | ⟨hrun, message, offset, hdec⟩ :=
        decode_spec hok string start
      · rw [hdec, ok_bind]
        obtain ⟨hcomp, hclose⟩ | ⟨hcomp, message, hclose⟩ :=
          close_spec (valid_of_run hrun hok) (some (start + string.length))
        · refine .inl ⟨state', out, buffer.toList, hrun, ?_, fun output hmem => hfill output (mem_toList.mp hmem), hcont,
            fun _ => hcomp⟩
          rw [hcloses]
          simp [hclose]
        · exact .inr ⟨.inr ⟨hcloses, state', out, hrun, hcomp⟩, message, some (start + string.length), by simp [hclose]⟩
      · exact .inr ⟨.inl hrun, message, offset, by rw [hdec]; rfl⟩
  | cons slice slices ih =>
    obtain ⟨start, string⟩ := slice
    have htext : text_of ((start, string) :: slices) ending = string ++ text_of slices ending := by
      simp [text_of]
    rw [htext, decoder_sink, decoder_add_slice]
    by_cases hempty : string = []
    · subst hempty
      simpa using ih hok
    rw [if_neg (by rwa [List.isEmpty_iff]), run_append]
    obtain ⟨state', out, buffer, hrun, hdec, hfill, hcont, -⟩ | ⟨hrun, message, offset, hdec⟩ := decode_spec hok string start
    · rw [hrun, hdec, bind_some]
      obtain ⟨state'', out', buffers, hrun', hsink, hfill', hcont', hcomp⟩ | ⟨hnot, message, offset, hsink⟩ :=
        ih (valid_of_run hrun hok)
      · refine .inl ⟨state'', out ++ out', buffer.toList ++ buffers, by rw [hrun']; rfl, by simp [hsink], ?_, ?_, hcomp⟩
        · intro output hmem
          obtain hmem | hmem := mem_append.mp hmem
          · exact hfill output (mem_toList.mp hmem)
          · exact hfill' output hmem
        · rw [map_append, flatten_append, hcont, hcont']
      · refine .inr ⟨hnot.imp (fun hrun' => by rw [hrun']; rfl) ?_, message, offset, by simp [hsink]⟩
        rintro ⟨hcloses, state'', out', hrun', hcomp⟩
        exact ⟨hcloses, state'', out ++ out', by rw [hrun']; rfl, hcomp⟩
    · exact .inr ⟨.inl (by rw [hrun]; rfl), message, offset, by rw [hdec]; rfl⟩

/-- A text is accepted in one piece exactly if it is an encoding. -/
lemma decoder_convert_spec (text : List Nat) : (∃ bytes, Encodes text bytes ∧ decoder_convert text = .ok bytes) ∨
      (∀ bytes, ¬Encodes text bytes) ∧
        ∃ message offset, decoder_convert text = .error (.format_exception message offset) := by
  by_cases hempty : text = []
  · subst hempty
    exact .inl ⟨[], ⟨[], .nil, rfl⟩, rfl⟩
  rw [decoder_convert, if_neg (by rwa [List.isEmpty_iff]), show (0 : Int) = (characters []).state from rfl]
  obtain ⟨state, out, buffer, hrun, hdec, hfill, hcont, hbuffer⟩ | ⟨hrun, message, offset, hdec⟩ :=
    decode_spec valid_start text 0
  · obtain ⟨output, rfl⟩ := ne_none_iff_exists'.mp (hbuffer rfl)
    rw [hdec, ok_bind]
    dsimp only
    obtain ⟨hcomp, hclose⟩ | ⟨hcomp, message, hclose⟩ := close_spec (valid_of_run hrun valid_start) (some text.length)
    · refine .inl ⟨out, run_iff_encodes.mp ⟨state, hrun, hcomp⟩, ?_⟩
      rw [hclose, ← hcont]
      simp
    · refine .inr ⟨not_encodes_of_run (Or.inr ⟨state, out, hrun, hcomp⟩), message, some text.length, ?_⟩
      rw [hclose, error_bind]
  · exact .inr ⟨not_encodes_of_run (.inl hrun), message, offset, by rw [hdec, error_bind]⟩

end

variable {bytes : List UInt8}

lemma sextet_lt_of_mem_symbols {value : Nat} (h : .sextet value ∈ symbols bytes) : value < 64 := by
  fun_induction symbols bytes with
  | case1 => cases h
  | case2 a =>
    have ha := a.toNat_lt
    simp only [mem_cons, not_mem_nil, or_false, Symbol.sextet.injEq, reduceCtorEq] at h
    omega
  | case3 a b =>
    have ha := a.toNat_lt
    have hb := b.toNat_lt
    simp only [mem_cons, not_mem_nil, or_false, Symbol.sextet.injEq, reduceCtorEq] at h
    omega
  | case4 a b c rest ih =>
    have ha := a.toNat_lt
    have hb := b.toNat_lt
    have hc := c.toNat_lt
    simp only [mem_cons, Symbol.sextet.injEq] at h
    obtain h | h | h | h | h := h
    · omega
    · omega
    · omega
    · omega
    · exact ih h

lemma encodes_rfc4648 (url_safe : Bool) (bytes : List UInt8) : Encodes (rfc4648 (alphabet_of url_safe) bytes) bytes := by
  refine ⟨(symbols bytes).map fun symbol => [symbol.char (alphabet_of url_safe)], ?_, ?_⟩
  · rw [forall₂_map_right_iff, forall₂_same]
    intro symbol hmem
    cases symbol with
    | pad => exact .inl rfl
    | sextet value =>
      refine ⟨sextet_lt_of_mem_symbols hmem, ?_⟩
      cases url_safe with
      | false => exact .inl rfl
      | true => exact .inr rfl
  · exact (flatMap_pure_eq_map _ _).symm

lemma decoder_convert_eq_ok_iff {text : List Nat} : decoder_convert text = .ok bytes ↔ Encodes text bytes := by
  obtain ⟨bytes', henc, hconv⟩ | ⟨href, message, offset, hconv⟩ := decoder_convert_spec text
  · rw [hconv, Except.ok.injEq]
    constructor
    · rintro rfl
      exact henc
    · exact henc.unique
  · rw [hconv]
    simp [href]

/-- A conversion in slices accepts what is accepted in one piece, with the same bytes, and throws otherwise. -/
def SameOutcome (slices : List (Nat × List Nat)) (ending : Ending) : Prop :=
  (∀ bytes, (∃ buffers, decoder_sink 0 slices ending = .ok (buffers, true) ∧ (buffers.map contents).flatten = bytes) ↔
    decoder_convert (text_of slices ending) = .ok bytes) ∧
  ((∃ message offset, decoder_sink 0 slices ending = .error (.format_exception message offset)) ↔
    ∃ message offset, decoder_convert (text_of slices ending) = .error (.format_exception message offset))

/-- Where the output is not closed, the conversions agree only if the machine refuses the text. -/
lemma sameOutcome_iff (slices : List (Nat × List Nat)) (ending : Ending) : SameOutcome slices ending ↔
    ending.closes = true ∨ run decode_step (.characters []) (text_of slices ending) = none := by
  rw [SameOutcome, show (0 : Int) = (characters []).state from rfl]
  obtain ⟨state, out, buffers, hrun, hsink, -, hcont, hcomp⟩ | ⟨hnot, message, offset, hsink⟩ :=
    decoder_sink_spec slices ending valid_start
  · rw [hsink, hrun]
    cases hcloses : ending.closes with
    | true =>
      have hconv := decoder_convert_eq_ok_iff.mpr (run_iff_encodes.mp ⟨state, hrun, hcomp hcloses⟩)
      rw [hconv]
      simp [hcont]
    | false =>
      obtain ⟨bytes, -, hconv⟩ | ⟨-, message, offset, hconv⟩ := decoder_convert_spec (text_of slices ending)
      · simp [hconv]
      · simp [hconv]
  · have hrefused : ∀ bytes, ¬Encodes (text_of slices ending) bytes := not_encodes_of_run (hnot.imp_right And.right)
    obtain ⟨bytes, henc, -⟩ | ⟨-, message', offset', hconv⟩ := decoder_convert_spec (text_of slices ending)
    · exact absurd henc (hrefused bytes)
    · rw [hsink, hconv]
      simpa using hnot.symm.imp_left And.left

/-- Both encoders give the encoding of RFC 4648, however the bytes are cut into slices, and it is decoded to the bytes.
A text is decoded if it is a canonical encoding, in slices just as in one piece unless the conversion ends with an
empty slice. Every buffer that is handed on has been filled exactly, and no write is out of bounds. -/
theorem base64_codec_correct_iff (url_safe caching : Bool) :
    (∀ (slices : List (Nat × List UInt8)) (last : Nat × List UInt8), ∃ buffers,
      encoder_sink (last.map id ints) (new_encoder url_safe caching) (slices.map (Prod.map id ints)) = .ok buffers ∧
      (∀ buffer ∈ buffers, buffer.Filled) ∧
      encoder_convert url_safe (ints ((slices.map Prod.snd).flatten ++ last.2)) =
        .ok ((buffers.map Buffer.contents).flatten.map UInt8.toNat) ∧
      (buffers.map Buffer.contents).flatten.map UInt8.toNat =
        rfc4648 (alphabet_of url_safe) ((slices.map Prod.snd).flatten ++ last.2)) ∧
    (∀ bytes : List UInt8, ∃ text, encoder_convert url_safe (ints bytes) = .ok text ∧ decoder_convert text = .ok bytes) ∧
    (∀ text bytes, decoder_convert text = .ok bytes ↔ Encodes text bytes) ∧
    ∀ (slices : List (Nat × List Nat)) (ending : Ending),
      ((∃ buffers closed, decoder_sink 0 slices ending = .ok (buffers, closed) ∧ ∀ output ∈ buffers, output.Filled) ∨
        ∃ message offset, decoder_sink 0 slices ending = .error (.format_exception message offset)) ∧
      (SameOutcome slices ending ↔
        ending.closes = true ∨ run decode_step (.characters []) (text_of slices ending) = none) := by
  refine ⟨fun slices last => ?_, fun bytes => ?_, fun text bytes => decoder_convert_eq_ok_iff, fun slices ending => ⟨?_,
    sameOutcome_iff slices ending⟩⟩
  · obtain ⟨buffers, hsink, hfill, hcont⟩ := encoder_sink_spec slices last (new_encoder url_safe caching)
      (length_alphabet_of url_safe) (show ([] : List UInt8).length < 3 by decide) rfl
    have htext : (buffers.map contents).flatten.map UInt8.toNat =
        rfc4648 (alphabet_of url_safe) ((slices.map Prod.snd).flatten ++ last.2) := by
      rw [hcont]
      exact map_toNat_rfc4648 url_safe _
    refine ⟨buffers, hsink, hfill, ?_, htext⟩
    rw [htext, encoder_convert_eq]
  · exact ⟨_, encoder_convert_eq url_safe bytes, decoder_convert_eq_ok_iff.mpr (encodes_rfc4648 url_safe bytes)⟩
  · obtain ⟨state, out, buffers, -, hsink, hfill, -⟩ | ⟨-, message, offset, hsink⟩ :=
      decoder_sink_spec slices ending valid_start
    · exact .inl ⟨buffers, _, hsink, hfill⟩
    · exact .inr ⟨message, offset, hsink⟩

/-- After `AAA` an empty last slice neither throws nor closes the output. -/
theorem empty_last_slice_not_closed :
    (∃ buffers, decoder_sink 0 [(0, [65, 65, 65])] (.last_slice (3, [])) = .ok (buffers, false)) ∧
      ∃ message offset, decoder_convert [65, 65, 65] = .error (.format_exception message offset) :=
  ⟨⟨_, rfl⟩, _, _, rfl⟩

end dart.convert.base64
