import DartVM.Convert.Base64Machines

namespace dart.convert.base64
open dart.transducer Nat DecoderState Uint8Buffer
open List hiding count

/-- The bits of the characters that a decoder holds. -/
def sextet_bits (pending : List Nat) : Nat := pending.foldl (fun bits value => bits * 64 + value) 0

/-- The number that stands for a state of the machine. -/
def DecoderState.state : DecoderState → Int
  | .characters pending => encode_character_state pending.length (sextet_bits pending)
  | .padding expected => encode_padding_state expected

/-- The states of the machine that occur. -/
def DecoderState.Valid : DecoderState → Prop
  | .characters pending => pending.length < 4 ∧ ∀ value ∈ pending, value < 64
  | .padding expected => expected ≤ 5

section

lemma state_padding_encode (expected : Nat) : state_padding (encode_padding_state expected) = expected := by
  rw [state_padding, encode_padding_state]
  omega

variable {expected expected' char : Nat}

lemma read_padding_of_step (h : padding_step expected char = some expected')
    (text : List Nat) : read_padding expected (char :: text) = read_padding expected' text := by
  rw [read_padding, h]

lemma read_padding_of_refused {expected char : Nat} (h : padding_step expected char = none) (text : List Nat) :
    read_padding expected (char :: text) = (expected, char :: text) := by
  rw [read_padding, h]

lemma read_padding_zero (text : List Nat) : read_padding 0 text = (0, text) := by
  cases text with
  | nil => rfl
  | cons char text => exact read_padding_of_refused rfl text

/-- What an iteration has read of a padding, by how many characters are expected and left after it. -/
def PartRead (expected : Nat) (text : List Nat) (r : Nat × List Nat × Bool) : Prop :=
  if r.2.2 then
    read_padding expected text = read_padding r.1 r.2.1 ∧ r.2.1 ≠ [] ∧ r.2.1.length < text.length ∧ r.1 ≤ 5
  else read_padding expected text = (r.1, r.2.1)

variable {expected : Nat} {text : List Nat}

lemma check_char_d_spec (hexp : expected = 1 ∨ expected = 4) (text : List Nat) :
    PartRead expected text (check_char_d expected text) := by
  cases text with
  | nil => rfl
  | cons char text =>
    have hstep : padding_step expected char = if char ||| 0x20 = char_d then some (expected - 1) else none := by
      obtain rfl | rfl := hexp <;> rfl
    rw [check_char_d]
    split_ifs with hchar
    · rw [if_neg hchar] at hstep
      simp [PartRead, read_padding, hstep]
    · rw [if_pos (not_not.mp hchar)] at hstep
      cases text with
      | nil => simp [PartRead, read_padding, hstep]
      | cons next text =>
        refine ⟨?_, cons_ne_nil _ _, by simp, by omega⟩
        rw [read_padding, hstep]

lemma PartRead.cons {r : Nat × List Nat × Bool} (h : PartRead expected' text r)
    (hstep : padding_step expected char = some expected') : PartRead expected (char :: text) r := by
  have hread := read_padding_of_step hstep text
  rw [PartRead] at h ⊢
  split_ifs at h ⊢
  · exact ⟨hread.trans h.1, h.2.1, lt_succ_of_lt h.2.2.1, h.2.2.2⟩
  · exact hread.trans h

lemma check_partial_padding_spec (hexp : expected = 1 ∨ expected = 2 ∨ expected = 4 ∨ expected = 5)
    (hne : text ≠ []) : PartRead expected text (check_partial_padding expected text) := by
  obtain ⟨char, text, rfl⟩ := exists_cons_of_ne_nil hne
  have htwo (hexp : expected = 2 ∨ expected = 5) : PartRead expected (char :: text)
        (if char ≠ char_3 then (expected, char :: text, false) else check_char_d (expected - 1) text) := by
    have hstep : padding_step expected char = if char = char_3 then some (expected - 1) else none := by
      obtain rfl | rfl := hexp <;> rfl
    split_ifs with hchar
    · rw [if_neg hchar] at hstep
      simp [PartRead, read_padding, hstep]
    · rw [if_pos (not_not.mp hchar)] at hstep
      exact (check_char_d_spec (by omega) text).cons hstep
  obtain rfl | rfl | rfl | rfl := hexp
  · exact check_char_d_spec (.inl rfl) (char :: text)
  · exact htwo (.inl rfl)
  · exact check_char_d_spec (.inr rfl) (char :: text)
  · exact htwo (.inr rfl)

/-- The loop reads a padding as far as it goes. -/
lemma check_padding_loop_spec (fuel : Nat) (hexp : expected ≤ 5) (hne : text ≠ [])
    (hfuel : text.length < fuel) : check_padding_loop fuel expected text = read_padding expected text := by
  induction fuel generalizing expected text with
  | zero => omega
  | succ fuel ih =>
    have hpart {expected : Nat} {text' : List Nat} (hlen : text'.length ≤ text.length) {r : Nat × List Nat × Bool}
        (h : PartRead expected text' r) :
        (if r.2.2 then check_padding_loop fuel r.1 r.2.1 else (r.1, r.2.1)) = read_padding expected text' := by
      rw [PartRead] at h
      split_ifs at h ⊢
      · rw [h.1]
        exact ih h.2.2.2 h.2.1 (by omega)
      · exact h.symm
    obtain ⟨char, text, rfl⟩ := exists_cons_of_ne_nil hne
    rw [check_padding_loop]
    by_cases h0 : expected = 0
    · rw [if_pos h0, h0, read_padding_zero]
    rw [if_neg h0]
    by_cases hthree : expected = 3
    · subst hthree
      rw [if_pos rfl]
      by_cases hequals : char = padding_char
      · rw [if_pos hequals, hequals, read_padding_of_step rfl, read_padding_zero]
      rw [if_neg hequals]
      by_cases hpct : char = char_percent
      · rw [if_pos hpct, hpct, read_padding_of_step rfl]
        by_cases hempty : text = []
        · subst hempty
          rfl
        · rw [if_neg (by rwa [List.isEmpty_iff])]
          exact hpart (le_succ _) (check_partial_padding_spec (.inr (.inl rfl)) hempty)
      · rw [if_neg hpct, read_padding_of_refused]
        rw [padding_step, if_pos rfl, if_neg hequals, if_neg hpct]
    · rw [if_neg hthree]
      exact hpart (le_refl _) (check_partial_padding_spec (by omega) hne)

/-- `_checkPadding` accepts what the machine does. -/
lemma check_padding_spec (hexp : expected ≤ 5) (text : List Nat) (start : Nat) :
    match run decode_step (.padding expected) text with
    | some (state, _) => check_padding text start (encode_padding_state expected) = .ok state.state
    | none => ∃ message offset, check_padding text start (encode_padding_state expected) =
        .error (.format_exception message offset) := by
  by_cases hempty : text = []
  · subst hempty
    rfl
  have hchk : check_padding text start (encode_padding_state expected) =
      if (read_padding expected text).2.isEmpty then .ok (encode_padding_state (read_padding expected text).1)
      else .error (.format_exception "Invalid padding character"
        (start + (text.length - (read_padding expected text).2.length) : Nat)) := by
    rw [check_padding, if_neg (by rwa [List.isEmpty_iff]), state_padding_encode,
      check_padding_loop_spec _ hexp hempty (lt_succ_self _)]
  rw [run_padding, hchk]
  generalize read_padding expected text = r
  obtain ⟨expected', rest⟩ := r
  cases rest with
  | nil => rfl
  | cons char rest => exact ⟨_, _, rfl⟩

end

lemma masked_code_lt (char : Nat) : masked_code char < 64 := by
  have hall : ∀ i < 128, inverse_alphabet.getD i invalid < 64 := by decide +kernel
  rw [masked_code, and_two_pow_sub_one_eq_mod _ 7]
  exact hall _ (mod_lt _ (by decide))

variable {char : Nat} {pending : List Nat} {m n : Nat}

lemma masked_code_of_lt (h : char < 128) : masked_code char = inverse_alphabet.getD char invalid := by
  rw [masked_code, and_two_pow_sub_one_eq_mod _ 7, mod_eq_of_lt h]

lemma sextet_value_of_code (h : char < 128) (hcode : masked_code char ≥ 0) :
    sextet_value char = some (masked_code char).toNat := by
  rw [masked_code_of_lt h] at hcode ⊢
  rw [sextet_value, if_pos h]
  cases hget : inverse_alphabet.getD char invalid with
  | ofNat value => rfl
  | negSucc value =>
    omega

lemma sextet_value_of_not_code (hcode : ¬masked_code char ≥ 0) : sextet_value char = none := by
  rw [sextet_value]
  split_ifs with h
  · rw [masked_code_of_lt h] at hcode
    cases hget : inverse_alphabet.getD char invalid with
    | ofNat value =>
      rw [hget] at hcode
      exact absurd (Int.natCast_nonneg value) hcode
    | negSucc value => rfl
  · rfl

lemma sextet_value_of_not_ascii (h : ¬char < 128) : sextet_value char = none := if_neg h

lemma masked_code_eq_padding_iff (h : char < 128) :
    masked_code char = padding ↔ char = padding_char ∨ char = char_percent := by
  have hall : ∀ char < 128, inverse_alphabet.getD char invalid = padding ↔ char = padding_char ∨ char = char_percent := by
    decide +kernel
  rw [masked_code_of_lt h]
  exact hall char h

lemma not_code_of_padding (h : char = padding_char ∨ char = char_percent) : ¬masked_code char ≥ 0 := by
  obtain rfl | rfl := h <;> decide

lemma or_le_127_iff : m ||| n ≤ 127 ↔ m ≤ 127 ∧ n ≤ 127 := by
  constructor
  · intro h
    exact ⟨le_trans left_le_or h, le_trans right_le_or h⟩
  · rintro ⟨hm, hn⟩
    exact le_of_lt_succ (or_lt_two_pow (n := 7) (lt_succ_of_le hm) (lt_succ_of_le hn))

lemma sextet_bits_append (pending : List Nat) (value : Nat) :
    sextet_bits (pending ++ [value]) = sextet_bits pending * 64 + value := by
  rw [sextet_bits, foldl_append]
  rfl

lemma sextet_bits_lt (h : (characters pending).Valid) : sextet_bits pending < 2 ^ 18 := by
  obtain ⟨hlen, hlt⟩ := h
  match pending, hlen with
  | [], _ => decide
  | [a], _ =>
    have ha := hlt a (by simp)
    simp only [sextet_bits, foldl_cons, foldl_nil]
    omega
  | [a, b], _ =>
    have ha := hlt a (by simp)
    have hb := hlt b (by simp)
    simp only [sextet_bits, foldl_cons, foldl_nil]
    omega
  | [a, b, c], _ =>
    have ha := hlt a (by simp)
    have hb := hlt b (by simp)
    have hc := hlt c (by simp)
    simp only [sextet_bits, foldl_cons, foldl_nil]
    omega

lemma shifted_in_code {bits : Nat} (hbits : bits < 2 ^ 18) {code : Nat} (hcode : code < 64) :
    (bits <<< 6 ||| code) &&& 0xFFFFFF = bits * 64 + code := by
  rw [← shiftLeft_add_eq_or_of_lt hcode, and_two_pow_sub_one_eq_mod _ 24]
  omega

/-- How many bytes are written for a text, if it does not turn out to be refused before. -/
def demand : Nat → List Nat → Nat
  | _, [] => 0
  | count, char :: input =>
    if masked_code char ≥ 0 then if count = 3 then 3 + demand 0 input else demand (count + 1) input
    else if char = padding_char ∨ char = char_percent then count - 1
    else 0

/-- What the loop of `decodeChunk` does when the machine accepts a text, or refuses it. -/
def Decoded (expected : Option (DecoderState × List UInt8)) (output : Uint8Buffer)
    (result : Except Thrown (Option Int × Uint8Buffer)) : Prop :=
  match expected with
  | some (state, out) => ∃ output', result = .ok (some state.state, output') ∧ output.WritesTo out output'
  | none => (∃ message offset, result = .error (.format_exception message offset)) ∨ ∃ output', result = .ok (none, output')

lemma Decoded.after {expected : Option (DecoderState × List UInt8)} {output output' : Uint8Buffer} {bytes : List UInt8}
    {result : Except Thrown (Option Int × Uint8Buffer)} (h : Decoded expected output' result)
    (hwrites : output.WritesTo bytes output') : Decoded (expected.map fun r => (r.1, bytes ++ r.2)) output result := by
  match expected, h with
  | some (state, out), ⟨output'', hres, hwrites'⟩ => exact ⟨output'', hres, hwrites.trans hwrites'⟩
  | none, h => exact h

lemma encode_character_state_eq {count : Nat} (h : count < 4) (bits : Nat) :
    encode_character_state count bits = (bits * 4 + count : Nat) := by
  rw [encode_character_state, ← shiftLeft_add_eq_or_of_lt h, shiftLeft_eq]

/-- The machine does not go on after a character that is not ASCII. -/
lemma run_of_not_ascii (h : ¬char ≤ 127) (pending input : List Nat) :
    run decode_step (.characters pending) (char :: input) = none := by
  have hequals : char ≠ padding_char := by
    rintro rfl
    exact h (by decide)
  have hpct : char ≠ char_percent := by
    rintro rfl
    exact h (by decide)
  apply run_cons_of_refused
  rw [decode_step_no_value (sextet_value_of_not_ascii (by omega)), if_neg hequals, if_neg hpct]

/-- What the machine is expected to do if the characters before were ASCII. -/
def expected_run (char_or : Nat) (pending input : List Nat) : Option (DecoderState × List UInt8) :=
  if char_or ≤ 127 then run decode_step (.characters pending) input else none

lemma expected_run_of_step {char_or char : Nat} {pending pending' : List Nat} {out : List UInt8}
    (hstep : char < 128 → decode_step (.characters pending) char = some (.characters pending', out)) (input : List Nat) :
    expected_run char_or pending (char :: input) =
      (expected_run (char_or ||| char) pending' input).map fun r => (r.1, out ++ r.2) := by
  rw [expected_run, expected_run]
  by_cases hascii : char ≤ 127
  · by_cases hor : char_or ≤ 127
    · rw [if_pos hor, if_pos (or_le_127_iff.mpr ⟨hor, hascii⟩), run_cons_of_step (hstep (by omega))]
    · rw [if_neg hor, if_neg (fun h => hor (or_le_127_iff.mp h).1)]
      rfl
  · rw [if_neg (fun h => hascii (or_le_127_iff.mp h).2), run_of_not_ascii hascii, ite_self]
    rfl

section
variable {char : Nat} {input : List Nat} {i char_or : Nat} {pending : List Nat} {output : Uint8Buffer}
  (hok : (DecoderState.characters pending).Valid)

include hok

/-- The loop at a character that does not complete a group of four. -/
lemma decode_chars_of_code (hcode : masked_code char ≥ 0) (hshort : pending.length < 3) :
    decode_chars (char :: input) i char_or (sextet_bits pending) pending.length output =
      decode_chars input (i + 1) (char_or ||| char) (sextet_bits (pending ++ [(masked_code char).toNat]))
        (pending ++ [(masked_code char).toNat]).length output := by
  have hlt := masked_code_lt char
  have hbits := shifted_in_code (sextet_bits_lt hok) (show (masked_code char).toNat < 64 by omega)
  have hcnt : (pending.length + 1) &&& 3 = pending.length + 1 := by
    rw [and_two_pow_sub_one_eq_mod _ 2]
    omega
  rw [decode_chars]
  simp [hcode, hbits, hcnt, sextet_bits_append]

/-- The loop at a character that completes a group of four. -/
lemma decode_chars_of_full (hcode : masked_code char ≥ 0) {a b c : Nat} (hpend : pending = [a, b, c]) {n : Nat}
    (hroom : 3 + n ≤ output.room) :
    ∃ output', decode_chars (char :: input) i char_or (sextet_bits pending) pending.length output =
        decode_chars input (i + 1) (char_or ||| char) (sextet_bits []) ([] : List Nat).length output' ∧
      output.WritesTo (three_bytes a b c (masked_code char).toNat) output' ∧ n ≤ output'.room := by
  have hlt := masked_code_lt char
  have hbits := shifted_in_code (sextet_bits_lt hok) (show (masked_code char).toNat < 64 by omega)
  subst hpend
  have ha := hok.2 a (by simp)
  have hb := hok.2 b (by simp)
  have hc := hok.2 c (by simp)
  obtain ⟨d, hd⟩ : ∃ d, (masked_code char).toNat = d := ⟨_, rfl⟩
  have heq : sextet_bits [a, b, c] * 64 + d = ((a * 64 + b) * 64 + c) * 64 + d := by simp [sextet_bits]
  rw [hd, heq] at hbits
  rw [hd]
  obtain ⟨output1, hwr1, hwrites1, hroom1⟩ := exists_write (show n + 2 + 1 ≤ output.room by omega)
    (((((a * 64 + b) * 64 + c) * 64 + d) >>> 16) &&& 0xFF)
  obtain ⟨output2, hwr2, hwrites2, hroom2⟩ := exists_write hroom1 (((((a * 64 + b) * 64 + c) * 64 + d) >>> 8) &&& 0xFF)
  obtain ⟨output3, hwr3, hwrites3, hroom3⟩ := exists_write hroom2 ((((a * 64 + b) * 64 + c) * 64 + d) &&& 0xFF)
  refine ⟨output3, ?_, ?_, hroom3⟩
  · have hcnt : ([a, b, c].length + 1) &&& 3 = 0 := and_two_pow_sub_one_eq_mod 4 2
    rw [decode_chars]
    simp only [hcode, if_true, hd, hbits, hcnt, hwr1, hwr2, hwr3, ok_bind]
    rfl
  · have hall := (hwrites1.trans hwrites2).trans hwrites3
    simp only [shiftRight_eq_div_pow, and_two_pow_sub_one_eq_mod _ 8] at hall
    rw [show (((a * 64 + b) * 64 + c) * 64 + d) / 2 ^ 16 % 2 ^ 8 = a * 4 + b / 16 by omega,
      show (((a * 64 + b) * 64 + c) * 64 + d) / 2 ^ 8 % 2 ^ 8 = b % 16 * 16 + c / 4 by omega,
      show (((a * 64 + b) * 64 + c) * 64 + d) % 2 ^ 8 = c % 4 * 64 + d by omega] at hall
    exact hall

end

/-- The rest of a text is the rest of a padding. -/
lemma decoded_check_padding {expected : Nat} (hexp : expected ≤ 5) (input : List Nat) (start : Nat)
    (output : Uint8Buffer) : Decoded (run decode_step (.padding expected) input) output
      (check_padding input start (encode_padding_state expected) >>= fun state => .ok (some state, output)) := by
  have hchk := check_padding_spec hexp input start
  rw [run_padding] at hchk ⊢
  split_ifs at hchk ⊢ with hread
  · rw [hchk]
    exact ⟨output, rfl, .refl output⟩
  · obtain ⟨message, offset, hchk⟩ := hchk
    rw [hchk]
    exact .inl ⟨message, offset, rfl⟩

lemma ofNat_congr (h : m % 256 = n % 256) : UInt8.ofNat m = UInt8.ofNat n := by
  apply UInt8.toNat_inj.mp
  exact h

/-- How many more characters the first one of a padding asks for. -/
def escape_rest (char : Nat) : Nat := if char = char_percent then 2 else 0

lemma decode_step_first_padding (hpad : char = padding_char ∨ char = char_percent) (pending : List Nat) :
    decode_step (.characters pending) char = begin_padding (escape_rest char) pending := by
  obtain rfl | rfl := hpad <;> rfl

lemma write_partial_group_spec (hok : (characters pending).Valid)
    (hlen : pending.length > 1) (rest i : Nat) {output : Uint8Buffer} (hroom : pending.length - 1 ≤ output.room) :
    match begin_padding rest pending with
    | some (state, out) => state = .padding ((3 - pending.length) * 3 + rest) ∧
        ∃ output', write_partial_group (sextet_bits pending) pending.length i output = .ok output' ∧
          output.WritesTo out output'
    | none => ∃ message offset, write_partial_group (sextet_bits pending) pending.length i output =
        .error (.format_exception message offset) := by
  obtain ⟨hlt, hvals⟩ := hok
  match pending, hlen, hlt with
  | [a, b], _, _ =>
    have hbits : sextet_bits [a, b] = a * 64 + b := by simp [sextet_bits]
    have h0 : sextet_bits [a, b] &&& 0x0F = b % 16 := by
      rw [hbits, and_two_pow_sub_one_eq_mod _ 4]
      omega
    rw [begin_padding]
    by_cases hb : b % 16 = 0
    · obtain ⟨output', hwr, hwrites, -⟩ := exists_write hroom (sextet_bits [a, b] >>> 4)
      rw [if_pos hb]
      refine ⟨rfl, output', ?_, ?_⟩
      · rw [write_partial_group, if_neg (by simp), if_neg (by omega), hwr]
      · rwa [shiftRight_eq_div_pow, hbits, show (a * 64 + b) / 2 ^ 4 = a * 4 + b / 16 by omega] at hwrites
    · rw [if_neg hb]
      exact ⟨_, _, by rw [write_partial_group, if_neg (by simp), if_pos (by omega)]⟩
  | [a, b, c], _, _ =>
    have hbits : sextet_bits [a, b, c] = (a * 64 + b) * 64 + c := by simp [sextet_bits]
    have h0 : sextet_bits [a, b, c] &&& 0x03 = c % 4 := by
      rw [hbits, and_two_pow_sub_one_eq_mod _ 2]
      omega
    rw [begin_padding]
    by_cases hc : c % 4 = 0
    · obtain ⟨output1, hwr1, hwrites1, hroom1⟩ := exists_write hroom (sextet_bits [a, b, c] >>> 10)
      obtain ⟨output2, hwr2, hwrites2, -⟩ := exists_write hroom1 (sextet_bits [a, b, c] >>> 2)
      have hlt := hvals c (by simp)
      rw [if_pos hc]
      refine ⟨by simp, output2, ?_, ?_⟩
      · rw [write_partial_group, if_pos (by simp), if_neg (by omega), hwr1, ok_bind, hwr2]
      · have hall := hwrites1.trans hwrites2
        rw [shiftRight_eq_div_pow, shiftRight_eq_div_pow, hbits,
          show ((a * 64 + b) * 64 + c) / 2 ^ 10 = a * 4 + b / 16 by omega,
          ofNat_congr (show ((a * 64 + b) * 64 + c) / 2 ^ 2 % 256 = (b % 16 * 16 + c / 4) % 256 by omega)] at hall
        exact hall
    · rw [if_neg hc]
      exact ⟨_, _, by rw [write_partial_group, if_pos (by simp), if_pos (by omega)]⟩

/-- The loop at the first character of a padding. -/
lemma decoded_first_padding (hpad : char = padding_char ∨ char = char_percent)
    (hok : (characters pending).Valid) {char_or : Nat} (hor : char_or ||| char ≤ 127) (input : List Nat)
    (i : Nat) {output : Uint8Buffer} (hroom : pending.length - 1 ≤ output.room) :
    Decoded (run decode_step (.characters pending) (char :: input)) output
      (decode_chars (char :: input) i char_or (sextet_bits pending) pending.length output) := by
  have hstep := decode_step_first_padding hpad pending
  have hcode := not_code_of_padding hpad
  have hpadding : masked_code char = padding :=
    (masked_code_eq_padding_iff (lt_succ_of_le (or_le_127_iff.mp hor).2)).mpr hpad
  have hrest : escape_rest char ≤ 2 := by
    rw [escape_rest]
    split_ifs <;> omega
  rw [decode_chars]
  rw [if_neg hcode]
  by_cases hlen : pending.length > 1
  · rw [if_pos ⟨hpadding, hlen⟩, if_neg (by omega)]
    have hgroup := write_partial_group_spec hok hlen (escape_rest char) i hroom
    cases hbegin : begin_padding (escape_rest char) pending with
    | some r =>
      obtain ⟨state, out⟩ := r
      rw [hbegin] at hgroup hstep
      obtain ⟨rfl, output', hwr, hwrites⟩ := hgroup
      rw [run_cons_of_step hstep, hwr, ok_bind]
      exact (decoded_check_padding (by omega) input (i + 1) output').after hwrites
    | none =>
      rw [hbegin] at hgroup hstep
      obtain ⟨message, offset, herror⟩ := hgroup
      rw [run_cons_of_refused hstep, herror]
      exact .inl ⟨message, offset, rfl⟩
  · have hnone : begin_padding (escape_rest char) pending = none := by
      match pending with
      | [] | [_] => rfl
      | _ :: _ :: _ => simp at hlen
    rw [hnone] at hstep
    rw [if_neg (fun h => hlen h.2), run_cons_of_refused hstep]
    exact .inl ⟨_, _, rfl⟩

/-- The loop decodes what the machine does, as long as there is room. -/
lemma decode_chars_spec (input : List Nat) (hok : (characters pending).Valid)
    (i char_or : Nat) {output : Uint8Buffer} (hroom : demand pending.length input ≤ output.room) :
    Decoded (expected_run char_or pending input) output
      (decode_chars input i char_or (sextet_bits pending) pending.length output) := by
  induction input generalizing pending i char_or output with
  | nil =>
    rw [expected_run, decode_chars]
    split_ifs
    · exact ⟨output, rfl, .refl output⟩
    · exact .inr ⟨output, rfl⟩
  | cons char input ih =>
    by_cases hcode : masked_code char ≥ 0
    · have hlt := masked_code_lt char
      rw [demand, if_pos hcode] at hroom
      by_cases hfull : pending.length = 3
      · obtain ⟨a, b, c, hpend⟩ := length_eq_three.mp hfull
        rw [if_pos hfull] at hroom
        obtain ⟨output', hdec, hwrites, hroom'⟩ := @decode_chars_of_full char input i char_or pending output hok hcode
          a b c hpend _ hroom
        rw [hdec, expected_run_of_step (fun h => by
          rw [hpend]
          exact decode_step_full (sextet_value_of_code h hcode) a b c)]
        exact (@ih [] ⟨by decide, by simp⟩ (i + 1) (char_or ||| char) output' hroom').after hwrites
      have hshort : pending.length < 3 := by
        have := hok.1
        omega
      rw [if_neg hfull] at hroom
      have hok' : (characters (pending ++ [(masked_code char).toNat])).Valid := by
        refine ⟨by simp; omega, fun value hval => ?_⟩
        obtain hval | hval := mem_append.mp hval
        · exact hok.2 value hval
        · obtain rfl := mem_singleton.mp hval
          omega
      rw [decode_chars_of_code hok hcode hshort, expected_run_of_step (fun h =>
        decode_step_value (sextet_value_of_code h hcode) hshort)]
      exact (ih hok' (i + 1) (char_or ||| char) (by simpa using hroom)).after (.refl output)
    · rw [demand, if_neg hcode] at hroom
      by_cases hor : char_or ||| char ≤ 127
      · obtain ⟨hchar_or, hascii⟩ := or_le_127_iff.mp hor
        rw [expected_run, if_pos hchar_or]
        by_cases hpad : char = padding_char ∨ char = char_percent
        · rw [if_pos hpad] at hroom
          exact decoded_first_padding hpad hok hor input i hroom
        have hstep : decode_step (.characters pending) char = none := by
          rw [decode_step_no_value (sextet_value_of_not_code hcode), if_neg (fun h => hpad (.inl h)),
            if_neg (fun h => hpad (.inr h))]
        have hpadding : masked_code char ≠ padding := fun h =>
          hpad ((masked_code_eq_padding_iff (lt_succ_of_le hascii)).mp h)
        rw [run_cons_of_refused hstep, decode_chars]
        rw [if_neg hcode, if_neg (fun h => hpadding h.1)]
        exact .inl ⟨_, _, rfl⟩
      · have hnone : expected_run char_or pending (char :: input) = none := by
          rw [expected_run]
          split_ifs with hchar_or
          · exact run_of_not_ascii (fun h => hor (or_le_127_iff.mpr ⟨hchar_or, h⟩)) pending input
          · rfl
        rw [hnone, decode_chars]
        rw [if_neg hcode]
        by_cases hpadding : masked_code char = padding ∧ pending.length > 1
        · rw [if_pos hpadding, if_pos (by omega)]
          exact .inr ⟨output, rfl⟩
        · rw [if_neg hpadding]
          exact .inl ⟨_, _, rfl⟩

end dart.convert.base64
